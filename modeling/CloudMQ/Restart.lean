import CloudMQ.Tiling

/-!
Runs of the commit log: messages are put, and in between the store is shut down and started
again. A restart maps the files anew, each counting as full, and `recoverNormally` looks for the
end of the log; the file that was allocated in advance is deleted at the shutdown.

The tiling survives a restart when the reader does not take what lies behind the end of the log
for a record. The bytes there may be those of records that were cut off before.
-/

namespace CloudMQ.Restart

open CloudMQ.Buffer CloudMQ.Message CloudMQ.Record CloudMQ.Codec CloudMQ.Segment CloudMQ.Chain
open CloudMQ.Extents CloudMQ.CommitLog CloudMQ.Append CloudMQ.Agreement CloudMQ.Recover
open CloudMQ.Records CloudMQ.ValidPrefix CloudMQ.Tiling CloudMQ.Runs

/-! ### The scan of tiled files -/

section Scan

variable {cfg : MessageStoreConfig} {svc : Option ScheduleMessageService} {checkCRC : Bool}
  {good : Rec → Prop} {f : MapedFile Bytes}

/-- Records, and behind them nothing that reads as a record. -/
def Scannable (good : Rec → Prop) (check : Bytes → DispatchRequest × Bytes)
    (f : MapedFile Bytes) : Prop :=
  ∃ recs tail, (∀ r ∈ recs, good r) ∧ f.mappedByteBuffer = bytesOf recs ++ tail ∧
    8 ≤ tail.length ∧ ((check tail).1.msgSize = -1 ∨ (check tail).1.msgSize = 0)

/-- The cut that recovery makes in a file: behind some of its records. -/
def CutIn (good : Rec → Prop) (offset : ℕ) (f : MapedFile Bytes) : Prop :=
  ∃ recs tail, (∀ r ∈ recs, good r) ∧ f.mappedByteBuffer = bytesOf recs ++ tail ∧
    8 ≤ tail.length ∧ offset = f.fileFromOffset + sizes recs

lemma scanBuffer_tail {check : Bytes → DispatchRequest × Bytes} {tail : Bytes}
    (h : (check tail).1.msgSize = -1 ∨ (check tail).1.msgSize = 0) :
    ∃ fileEnd, scanBuffer check 1 tail = some ⟨0, [], fileEnd⟩ := by
  rcases h with h | h
  · exact ⟨.error, scanBuffer_reject h⟩
  · refine ⟨.blank, ?_⟩
    rw [scanBuffer, h]
    rfl

/-- A record of the schedule topic whose delay level is no number is rejected. -/
lemma reject_unreadable {r : Rec} (hg : Good cfg.maxMessageSize r) (hr : ¬ r.Readable svc)
    (rest : Bytes) : (recoverCheck cfg svc checkCRC (r.bytes ++ rest)).1.msgSize = -1 := by
  have htags : storedTagsCode svc r.message = none := by
    rw [← Option.not_isSome_iff_eq_none, storedTagsCode_isSome]
    exact fun h => hr ⟨hg.fits, h⟩
  have hw := hg.written
  rw [recoverCheck, Rec.bytes, check_fits hw.crc hw.bornHost hw.storeHost hw.size_le hg.fits,
    htags]
  rfl

/-- Either all records are readable, or there is a first one that is not. -/
lemma readable_or (svc : Option ScheduleMessageService) (recs : List Rec) :
    (∀ r ∈ recs, r.Readable svc) ∨ ∃ recs₁ r recs₂, recs = recs₁ ++ r :: recs₂ ∧
      (∀ r ∈ recs₁, r.Readable svc) ∧ ¬ r.Readable svc := by
  induction recs with
  | nil => exact .inl (by simp)
  | cons r recs ih =>
    by_cases hr : r.Readable svc
    · rcases ih with hall | ⟨recs₁, r', recs₂, rfl, h1, h2⟩
      · exact .inl (List.forall_mem_cons.mpr ⟨hr, hall⟩)
      · exact .inr ⟨r :: recs₁, r', recs₂, rfl, List.forall_mem_cons.mpr ⟨hr, h1⟩, h2⟩
    · exact .inr ⟨[], r, recs, rfl, by simp, hr⟩

section Scannable

variable (hgood : ∀ r, good r → Good cfg.maxMessageSize r)

include hgood

lemma scanFile_scannable (h : Scannable good (recoverCheck cfg svc checkCRC) f) :
    ∃ s, scanFile (recoverCheck cfg svc checkCRC) f = some s ∧
      CutIn good (f.fileFromOffset + s.mapedFileOffset) f := by
  obtain ⟨recs, tail, hg, hbytes, hlen, htail⟩ := h
  rcases readable_or svc recs with hr | ⟨recs₁, r, recs₂, rfl, hr, hbad⟩
  · obtain ⟨fileEnd, hend⟩ := scanBuffer_tail htail
    exact ⟨_, scanFile_recs (fun r hr => (hgood r (hg r hr)).written) hr hbytes hend,
      recs, tail, hg, hbytes, hlen, rfl⟩
  · have hgr : Good cfg.maxMessageSize r := hgood r (hg r (by simp))
    have hbytes' : f.mappedByteBuffer = bytesOf recs₁ ++ (r.bytes ++ (bytesOf recs₂ ++ tail)) := by
      rw [hbytes, bytesOf_append, bytesOf_cons, List.append_assoc, List.append_assoc]
    have hg₁ : ∀ r ∈ recs₁, good r := fun r hr => hg r (List.mem_append_left _ hr)
    refine ⟨_, scanFile_recs (fun r hr => (hgood r (hg₁ r hr)).written) hr hbytes'
      (scanBuffer_reject (reject_unreadable hgr hbad _)), recs₁, _, hg₁, hbytes', ?_, rfl⟩
    simp only [List.length_append]
    omega

/-- The scan of tiled files ends in one of them, behind some of its records. -/
lemma scanFiles_scannable {files : List (MapedFile Bytes)} (hne : files ≠ [])
    (h : ∀ f ∈ files, Scannable good (recoverCheck cfg svc checkCRC) f) :
    ∃ front g back offset ds, files = front ++ g :: back ∧
      scanFiles (recoverCheck cfg svc checkCRC) files = some (offset, ds) ∧
      CutIn good offset g := by
  induction files with
  | nil => exact absurd rfl hne
  | cons f files ih =>
    obtain ⟨s, hs, hcut⟩ := scanFile_scannable hgood (h f (by simp))
    cases files with
    | nil => exact ⟨[], f, [], _, s.requests, rfl, by rw [scanFiles, hs]; rfl, hcut⟩
    | cons g rest =>
      obtain ⟨front, g', back, offset, ds, hsplit, hscan, hcut'⟩ := ih (by simp)
        fun f hf => h f (List.mem_cons_of_mem _ hf)
      cases hend : s.fileEnd with
      | error =>
        refine ⟨[], f, g :: rest, _, s.requests, rfl, ?_, hcut⟩
        rw [scanFiles, hs, Option.bind_some, hend]
      | blank =>
        refine ⟨f :: front, g', back, offset, s.requests ++ ds, by rw [hsplit]; rfl, ?_, hcut'⟩
        rw [scanFiles, hs, Option.bind_some, hend, hscan]
        rfl

end Scannable

end Scan

/-! ### The cut -/

section Cut

variable {maxMessageSize : ℕ} {good : Rec → Prop} {q : MapedFileQueue Bytes}
  {f g : MapedFile Bytes} {front back : List (MapedFile Bytes)} {offset : ℕ}

/-- The file that is cut. -/
def cutFile (g : MapedFile Bytes) (pos : ℕ) : MapedFile Bytes :=
  { g with wrotePostion := pos, committedPosition := pos, forced := min g.forced pos }

lemma CutIn.room (hgood : ∀ r, good r → Good maxMessageSize r) (hm : Mapped q)
    (hg : g ∈ q.mapedFiles) (h : CutIn good offset g) :
    g.fileFromOffset ≤ offset ∧ offset + 8 ≤ g.fileFromOffset + q.mapedFileSize := by
  obtain ⟨recs, tail, hrecs, hbytes, hlen, rfl⟩ := h
  have := hm g hg
  rw [hbytes, List.length_append, length_good hgood hrecs] at this
  omega

/-- Files before the cut stay, files behind it go. -/
lemma mapedFiles_cutAt_of_split (hc : Chained q) (hq : q.mapedFiles = front ++ g :: back)
    (hle : g.fileFromOffset ≤ offset) (hlt : offset < g.fileFromOffset + q.mapedFileSize) :
    (cutAt q offset).mapedFiles = front ++ [cutFile g (offset - g.fileFromOffset)] := by
  have hg : q.mapedFiles[front.length]? = some g := by simp [hq]
  have hfront : front.filterMap (q.truncateFile offset) = front := by
    refine Eq.trans (List.filterMap_congr fun f hf => ?_) List.filterMap_some
    obtain ⟨i, hi⟩ := List.getElem?_of_mem hf
    have hlen := (List.getElem?_eq_some_iff.mp hi).1
    have hi' : q.mapedFiles[i]? = some f := by
      rw [hq, List.getElem?_append_left hlen, hi]
    have := end_le_start hc hlen hi' hg
    rw [MapedFileQueue.truncateFile, if_neg (by omega)]
  have hback : back.filterMap (q.truncateFile offset) = [] := by
    refine List.filterMap_eq_nil_iff.mpr fun f hf => ?_
    obtain ⟨i, hi⟩ := List.getElem?_of_mem hf
    have hi' : q.mapedFiles[front.length + (i + 1)]? = some f := by
      rw [hq, List.getElem?_append_right (by omega)]
      simpa using hi
    have := end_le_start hc (by omega) hg hi'
    rw [MapedFileQueue.truncateFile, if_pos (by omega), if_neg (by omega)]
  have hmod : offset % q.mapedFileSize = offset - g.fileFromOffset := by
    obtain ⟨k, hk⟩ := hc.aligned (extent g) (List.mem_map_of_mem (List.mem_of_getElem? hg))
    change g.fileFromOffset = q.mapedFileSize * k at hk
    obtain ⟨pos, rfl⟩ := Nat.exists_eq_add_of_le hle
    rw [hk, Nat.mul_add_mod, Nat.mod_eq_of_lt (by omega), Nat.add_sub_cancel_left]
  have hcut : q.truncateFile offset g = some (cutFile g (offset - g.fileFromOffset)) := by
    rw [MapedFileQueue.truncateFile, if_pos hlt, if_pos hle, hmod]
    rfl
  rw [mapedFiles_cutAt, hq, List.filterMap_append, List.filterMap_cons, hcut, hfront]
  simp only [hback]

lemma tiled_cutAt (hgood : ∀ r, good r → Good maxMessageSize r) (hc : Chained q) (hm : Mapped q)
    (hsealed : ∀ f ∈ q.mapedFiles.dropLast, Sealed good q.mapedFileSize f)
    (hq : q.mapedFiles = front ++ g :: back) (hcut : CutIn good offset g) :
    Tiled good (cutAt q offset) := by
  have hmem : g ∈ q.mapedFiles := by rw [hq]; simp
  obtain ⟨hle, hroom⟩ := hcut.room hgood hm hmem
  have hfiles := mapedFiles_cutAt_of_split hc hq hle (by omega)
  obtain ⟨recs, tail, hrecs, hbytes, hlen, rfl⟩ := hcut
  refine ⟨chained_cutAt hc, mapped_cutAt hm, fun f hf => ?_, fun f hf => ?_⟩
  · rw [hfiles, List.dropLast_concat] at hf
    apply hsealed
    rw [hq, List.dropLast_append_of_ne_nil (by simp)]
    exact List.mem_append_left _ hf
  · rw [hfiles, List.getLast?_concat, Option.mem_some_iff] at hf
    subst hf
    exact .inr ⟨recs, tail, hrecs, hbytes, by simp [cutFile], hlen⟩

end Cut

/-! ### A restart -/

section Reload

variable {cfg : MessageStoreConfig} {checkCRC : Bool} {good : Rec → Prop}
  {q q' : MapedFileQueue Bytes}

lemma mapped_reload (h : Mapped q) : Mapped (reload q) := by
  intro f hf
  rw [mapedFiles_reload] at hf
  obtain ⟨f₀, hf₀, rfl⟩ := List.mem_map.mp hf
  exact h f₀ hf₀

/-- Whatever recovery finds, the log is well formed afterwards. -/
lemma logOK_recoverNormally {check : Bytes → DispatchRequest × Bytes} {counters : Counters}
    (hc : Chained q) (hm : Mapped q) (hq : recoverNormally check (reload q) = some q') :
    LogOK ⟨q', counters⟩ ∧ q'.mapedFileSize = q.mapedFileSize := by
  unfold recoverNormally at hq
  split at hq
  · obtain rfl := Option.some.inj hq
    exact ⟨⟨chained_reload hc, mapped_reload hm⟩, rfl⟩
  · obtain ⟨p, -, rfl⟩ := Option.map_eq_some_iff.mp hq
    exact ⟨⟨chained_cutAt (chained_reload hc), mapped_cutAt (mapped_reload hm)⟩, rfl⟩

/-- Behind the end of the log the reader finds no record. -/
def Quiet (check : Bytes → DispatchRequest × Bytes) (q : MapedFileQueue Bytes) : Prop :=
  ∀ last ∈ q.mapedFiles.getLast?, last.wrotePostion < q.mapedFileSize →
    (check (last.mappedByteBuffer.drop last.wrotePostion)).1.msgSize = -1 ∨
      (check (last.mappedByteBuffer.drop last.wrotePostion)).1.msgSize = 0

lemma Sealed.scannable {f : MapedFile Bytes} {size : ℕ} {svc : Option ScheduleMessageService}
    (h : Sealed good size f) : Scannable good (recoverCheck cfg svc checkCRC) f := by
  obtain ⟨recs, memory, n, hg, hbytes, hn, -⟩ := h
  refine ⟨recs, _, hg, hbytes, by rw [length_blankBytes memory hn]; exact hn, .inr ?_⟩
  have hblank := @check_blankBytes svc checkCRC true cfg.maxMessageSize memory n []
  rw [List.append_nil] at hblank
  rw [recoverCheck, hblank]
  rfl

/-- A restart keeps the tiling. -/
lemma tiled_restart (hgood : ∀ r, good r → Good cfg.maxMessageSize r) (h : Tiled good q)
    {svc : Option ScheduleMessageService}
    (hquiet : Quiet (recoverCheck cfg svc checkCRC) q)
    (hq : recoverNormally (recoverCheck cfg svc checkCRC) (reload q) = some q') :
    Tiled good q' ∧ q'.mapedFileSize = q.mapedFileSize := by
  have hsealed : ∀ f ∈ (reload q).mapedFiles.dropLast,
      Sealed good (reload q).mapedFileSize f := by
    intro f hf
    rw [mapedFiles_reload, ← List.map_dropLast] at hf
    obtain ⟨f₀, hf₀, rfl⟩ := List.mem_map.mp hf
    obtain ⟨recs, memory, n, hg, hbytes, hn, -⟩ := h.sealed f₀ hf₀
    exact ⟨recs, memory, n, hg, hbytes, hn, rfl⟩
  have hscan : ∀ f ∈ (reload q).mapedFiles,
      Scannable good (recoverCheck cfg svc checkCRC) f := by
    intro f hf
    rw [mapedFiles_reload] at hf
    obtain ⟨f₀, hf₀, rfl⟩ := List.mem_map.mp hf
    obtain ⟨last, hlast⟩ : ∃ last, q.mapedFiles.getLast? = some last :=
      ⟨_, List.getLast?_eq_some_getLast (List.ne_nil_of_mem hf₀)⟩
    rw [← List.dropLast_append_getLast? last hlast] at hf₀
    rcases List.mem_append.mp hf₀ with hf₀ | hf₀
    · obtain ⟨recs, memory, n, hg, hbytes, hn, -⟩ := h.sealed f₀ hf₀
      exact Sealed.scannable ⟨recs, memory, n, hg, hbytes, hn, rfl⟩
    · obtain rfl := List.mem_singleton.mp hf₀
      rcases h.last f₀ hlast with ⟨recs, memory, n, hg, hbytes, hn, -⟩ | ho
      · exact Sealed.scannable ⟨recs, memory, n, hg, hbytes, hn, rfl⟩
      · have hroom := ho.room hgood (h.mapped f₀ (List.mem_of_getLast? hlast))
        have htail := hquiet f₀ hlast (by omega)
        obtain ⟨recs, tail, hg, hbytes, hwrote, hlen⟩ := ho
        rw [hbytes, hwrote, ← length_good hgood hg, List.drop_left] at htail
        exact ⟨recs, tail, hg, hbytes, hlen, htail⟩
  unfold recoverNormally at hq
  split at hq
  · next hnil =>
    cases hq
    refine ⟨⟨chained_reload h.chained, mapped_reload h.mapped, ?_, ?_⟩, rfl⟩
    · simp [hnil]
    · simp [hnil]
  · next hne =>
    have hne' : (reload q).mapedFiles.drop ((reload q).mapedFiles.length - 3) ≠ [] := by
      have := List.length_pos_iff.mpr hne
      rw [Ne, List.drop_eq_nil_iff]
      omega
    obtain ⟨front, g, back, offset, ds, hsplit, hs, hcut⟩ :=
      scanFiles_scannable hgood hne' fun f hf => hscan f (List.drop_subset _ _ hf)
    rw [hs, Option.map_some, Option.some.injEq] at hq
    rw [← hq]
    have hfiles : (reload q).mapedFiles =
        ((reload q).mapedFiles.take ((reload q).mapedFiles.length - 3) ++ front) ++ g :: back := by
      rw [List.append_assoc, ← hsplit, List.take_append_drop]
    exact ⟨tiled_cutAt hgood (chained_reload h.chained) (mapped_reload h.mapped) hsealed hfiles
      hcut, rfl⟩

end Reload

/-! ### Runs -/

/-- A message is put, or the store is restarted; the counters are rebuilt from the consume
queues then. -/
inductive Action
  | put (env : Env) (m : MessageExtBrokerInner)
  | restart (checkCRCOnRecover : Bool) (counters : Counters)

def step (cfg : MessageStoreConfig) (log : Log) : Action → Option Log
  | .put env m => some (putMessage cfg env m log).1
  | .restart checkCRCOnRecover counters =>
    (recoverNormally (recoverCheck cfg (some cfg.scheduleMessageService) checkCRCOnRecover)
      (reload log.mapedFileQueue)).map fun q => ⟨q, counters⟩

/-- The record of the message can be read back, and the host it was born on has four bytes. -/
def Storable (cfg : MessageStoreConfig) (env : Env) (m : MessageExtBrokerInner) : Prop :=
  ∀ m', stored cfg env m = some m' → Fits m' ∧ (SocketAddress2ByteBuffer m'.bornHost).isSome

def Allowed (cfg : MessageStoreConfig) (log : Log) : Action → Prop
  | .put env m => Storable cfg env m
  | .restart checkCRCOnRecover _ =>
    Quiet (recoverCheck cfg (some cfg.scheduleMessageService) checkCRCOnRecover)
      log.mapedFileQueue

/-- A new log with files of `size` bytes. -/
def newLog (size : ℕ) (hpos : 0 < size) : Log := ⟨Chain.empty size hpos, ⟨fun _ => none, 0⟩⟩

lemma tiled_newLog {good : Rec → Prop} {size : ℕ} (hpos : 0 < size) :
    Tiled good (newLog size hpos).mapedFileQueue :=
  ⟨.nil, by simp [Mapped, newLog, Chain.empty], by simp [newLog, Chain.empty],
    by simp [newLog, Chain.empty]⟩

lemma step_tiled {cfg : MessageStoreConfig} {log log' : Log} {a : Action}
    (h : Tiled (Good cfg.maxMessageSize) log.mapedFileQueue)
    (h8 : 8 ≤ log.mapedFileQueue.mapedFileSize)
    (hok : Allowed cfg log a) (hs : step cfg log a = some log') :
    Tiled (Good cfg.maxMessageSize) log'.mapedFileQueue ∧
      log'.mapedFileQueue.mapedFileSize = log.mapedFileQueue.mapedFileSize := by
  cases a with
  | put env m =>
    cases hs
    exact tiled_putMessage (fun _ h => h) h h8 fun m' hm' =>
      makes_good (ownCRC_stored hm') (hok m' hm').1
  | restart checkCRCOnRecover counters =>
    obtain ⟨q, hq, rfl⟩ := Option.map_eq_some_iff.mp hs
    exact tiled_restart (fun _ h => h) h hok hq

/-- The record of `m` stands at the offset the result names. -/
def WroteWhole (m : MessageExtBrokerInner) (result : AppendMessageResult) (log : Log) : Prop :=
  result.status = .PUT_OK ∧ result.wroteBytes = recordSize m ∧ ∃ bornHost storeHost rest,
    bornHost.length = 8 ∧ storeHost.length = 8 ∧
    sliceAt log.mapedFileQueue result.wroteOffset =
      recordBytes m (Int32.ofNat (recordSize m)) bornHost storeHost result.logicsOffset
        result.wroteOffset ++ rest

/-- **The tiling of the commit log.** After every run of storable messages and quiet restarts,
every file but the last is tiled, and the last one has no byte left or at least eight. A further
message then overruns no buffer, finds room in the second file, and is stored as a whole. -/
theorem commit_log_tiling {cfg : MessageStoreConfig} {size : ℕ} (hpos : 0 < size)
    (hsize : cfg.maxMessageSize + 8 ≤ size) {actions : List Action} {log : Log}
    (hok : Meets (step cfg) (Allowed cfg) (newLog size hpos) actions)
    (hrun : run (step cfg) (newLog size hpos) actions = some log) :
    (∀ f ∈ log.mapedFileQueue.mapedFiles.dropLast, Sealed (Good cfg.maxMessageSize) size f) ∧
    (∀ f ∈ log.mapedFileQueue.mapedFiles.getLast?,
      f.wrotePostion = size ∨ f.wrotePostion + 8 ≤ size) ∧
    ∀ env m, Storable cfg env m →
      (∀ log' e, putMessage cfg env m log = (log', .error e) →
        e ≠ .memoryOverflow ∧ e ≠ .sliceOverflow) ∧
      (∀ m' log₁ result, stored cfg env m = some m' →
        appendLast cfg env.mapedFile1 env.msgStoreItemMemory1 m' log = (log₁, .done result) →
        result.status = .END_OF_FILE →
        (∀ f ∈ log₁.mapedFileQueue.mapedFiles.getLast?,
          f.wrotePostion = size ∨ f.wrotePostion + 8 ≤ size) ∧
        ∀ contents memory, ∃ log₂ result₂,
          appendLast cfg (some contents) memory m' log₁ = (log₂, .done result₂) ∧
            result₂.status = .PUT_OK) ∧
      ∀ log' put, putMessage cfg env m log = (log', .ok put) →
        put.result.putMessageStatus = .PUT_OK →
        ∃ m' result, stored cfg env m = some m' ∧ put.result.appendMessageResult = some result ∧
          WroteWhole m' result log' := by
  have hstep : ∀ log a log', (Tiled (Good cfg.maxMessageSize) log.mapedFileQueue ∧
      log.mapedFileQueue.mapedFileSize = size) → Allowed cfg log a → step cfg log a = some log' →
        Tiled (Good cfg.maxMessageSize) log'.mapedFileQueue ∧
          log'.mapedFileQueue.mapedFileSize = size := by
    rintro log a log' ⟨h1, h2⟩ hok hs
    obtain ⟨h3, h4⟩ := step_tiled h1 (by omega) hok hs
    exact ⟨h3, h4.trans h2⟩
  obtain ⟨h, hsz⟩ := run_invariant hstep ⟨tiled_newLog hpos, rfl⟩ hok hrun
  have hlogOK : LogOK log := ⟨h.chained, h.mapped⟩
  refine ⟨fun f hf => hsz ▸ h.sealed f hf, fun f hf => hsz ▸ h.room (fun _ h => h) hf,
    fun env m hst => ?_⟩
  have hfits := fun m' hm' => (hst m' hm').1
  refine ⟨fun log' e hp => ?_, fun m' log₁ result hm' ha hend => ⟨fun f hf => ?_, ?_⟩,
    fun log' put hp hput => ?_⟩
  · exact putMessage_no_overrun h (by omega) hfits hp
  · obtain ⟨h1, h2⟩ := tiled_appendLast (fun _ h => h) h (by omega)
      (makes_good (ownCRC_stored hm') (hfits m' hm')) ha
    have := h1.room (fun _ h => h) hf
    omega
  · exact second_append h (by omega) (hfits m' hm') (hst m' hm').2 ha hend
  · obtain ⟨m₁, tagsCode, result, hprep, hl, hres, -⟩ := putMessage_ok hp hput
    refine ⟨stamp env m₁, result, by rw [stored, hprep]; rfl, hres, ?_⟩
    exact stored_complete hlogOK (by omega) hl

/-! ### A record inside a record -/

/-- Messages of up to 392 bytes, for files of 400 bytes. -/
def smallConfig : MessageStoreConfig where
  maxMessageSize := 392
  maxMessageSize_lt := by decide
  flushDiskType := .ASYNC_FLUSH
  brokerRole := .ASYNC_MASTER
  scheduleMessageService := config.scheduleMessageService

/-- A body that holds the head of a record of 304 bytes, four bytes from its start. -/
def innerBody : Bytes := [0, 0, 0, 0] ++ putInt 304 ++ putInt MessageMagicCode ++ zeros 83

/-- The topic has 43 characters and 129 bytes. -/
def outerMessage : MessageExtBrokerInner :=
  { messageTo (List.replicate 43 '中') with body := some ⟨innerBody, by decide⟩ }

def emptyMessage : MessageExtBrokerInner :=
  { messageTo ['T'] with body := none, propertiesString := none }

/-- The record with the long topic is cut off at the first restart, and overwritten in part. -/
def staleRun : List Action :=
  [.put zeroEnv outerMessage, .restart false ⟨fun _ => none, 0⟩, .put zeroEnv emptyMessage,
    .restart false ⟨fun _ => none, 0⟩]

/-- The second restart takes the rest of the old body for a record. Four bytes are left in the
file, and the next message overruns `msgStoreItemMemory`. -/
theorem commit_log_tiling_stale :
    smallConfig.maxMessageSize + 8 ≤ 400 ∧ isLegal outerMessage ∧ isLegal emptyMessage ∧
    ∃ log f, run (step smallConfig) (newLog 400 (by decide)) staleRun = some log ∧
      log.mapedFileQueue.mapedFiles.getLast? = some f ∧ f.wrotePostion = 396 ∧
      (putMessage smallConfig zeroEnv emptyMessage log).2 = .error .memoryOverflow := by
  have hrun : (run (step smallConfig) (newLog 400 (by decide)) staleRun).bind (fun log =>
      log.mapedFileQueue.mapedFiles.getLast?.map fun f =>
        (f.wrotePostion, thrownBy (putMessage smallConfig zeroEnv emptyMessage log))) =
      some (396, some .memoryOverflow) := by
    decide +kernel
  obtain ⟨log, hlog, hf⟩ := Option.bind_eq_some_iff.mp hrun
  obtain ⟨f, hf, heq⟩ := Option.map_eq_some_iff.mp hf
  rw [Prod.mk.injEq] at heq
  exact ⟨by decide, by decide, by decide, log, f, hlog, hf, heq.1,
    thrown_of_thrownBy heq.2⟩

lemma storable_emptyMessage : Storable smallConfig zeroEnv emptyMessage := by
  have h : (stored smallConfig zeroEnv emptyMessage).all (fun m => decide (m.topicData.length ≤ 127)
      && decide (m.propertiesData.length ≤ 32767) &&
        (SocketAddress2ByteBuffer m.bornHost).isSome) := by decide
  intro m' hm'
  rw [hm', Option.all_some] at h
  simp only [Bool.and_eq_true, decide_eq_true_eq] at h
  exact ⟨⟨h.1.1, h.1.2⟩, h.2⟩

/-- Five messages and a restart: the fifth one begins a second file. -/
theorem commit_log_tiling_two_files :
    ∃ log, run (step smallConfig) (newLog 400 (by decide))
        [.put zeroEnv emptyMessage, .put zeroEnv emptyMessage, .put zeroEnv emptyMessage,
          .restart false ⟨fun _ => none, 0⟩, .put zeroEnv emptyMessage,
          .put zeroEnv emptyMessage] = some log ∧
      log.mapedFileQueue.mapedFiles.length = 2 ∧
      (∀ f ∈ log.mapedFileQueue.mapedFiles.dropLast,
        Sealed (Good smallConfig.maxMessageSize) 400 f) ∧
      ∀ f ∈ log.mapedFileQueue.mapedFiles.getLast?,
        f.wrotePostion = 400 ∨ f.wrotePostion + 8 ≤ 400 := by
  have hput := storable_emptyMessage
  have hquiet : (run (step smallConfig) (newLog 400 (by decide))
      [.put zeroEnv emptyMessage, .put zeroEnv emptyMessage,
        .put zeroEnv emptyMessage]).all (fun log => log.mapedFileQueue.mapedFiles.getLast?.all
          fun f => decide ((recoverCheck smallConfig (some smallConfig.scheduleMessageService) false
            (f.mappedByteBuffer.drop f.wrotePostion)).1.msgSize = -1)) := by decide +kernel
  have hlen : (run (step smallConfig) (newLog 400 (by decide))
      [.put zeroEnv emptyMessage, .put zeroEnv emptyMessage, .put zeroEnv emptyMessage,
        .restart false ⟨fun _ => none, 0⟩, .put zeroEnv emptyMessage,
        .put zeroEnv emptyMessage]).map (fun log => log.mapedFileQueue.mapedFiles.length) =
      some 2 := by decide +kernel
  obtain ⟨log, hlog, h2⟩ := Option.map_eq_some_iff.mp hlen
  refine ⟨log, hlog, h2, ?_⟩
  have hok : Meets (step smallConfig) (Allowed smallConfig) (newLog 400 (by decide))
      [.put zeroEnv emptyMessage, .put zeroEnv emptyMessage, .put zeroEnv emptyMessage,
        .restart false ⟨fun _ => none, 0⟩, .put zeroEnv emptyMessage,
        .put zeroEnv emptyMessage] := by
    refine .cons rfl hput (.cons rfl hput (.cons rfl hput ⟨?_, fun _ _ => ⟨hput, fun _ _ =>
      ⟨hput, fun _ _ => trivial⟩⟩⟩))
    intro last hlast _
    refine .inl ?_
    simp only [run, step, Option.bind_some, Option.all_some] at hquiet
    rw [hlast, Option.all_some] at hquiet
    exact of_decide_eq_true hquiet
  obtain ⟨h3, h4, -⟩ := commit_log_tiling (by decide) (by decide) hok hlog
  exact ⟨h3, h4⟩

end CloudMQ.Restart
