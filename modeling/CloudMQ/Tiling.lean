import CloudMQ.Runs
import CloudMQ.ValidPrefix

/-!
The tiling of the commit log: every file but the last holds records and one blank record that
fills it to the end, and the last file always keeps room for a blank record, unless it is full.

Appending keeps this by itself. A restart keeps it as long as the reader goes through the records
that were written and stops behind them: it loses its way at a record whose topic or properties
do not fit, and it must not take what lies behind the end of the log for a record.
-/

namespace CloudMQ.Tiling

open CloudMQ.Buffer CloudMQ.Message CloudMQ.Record CloudMQ.Codec CloudMQ.Segment CloudMQ.Chain
open CloudMQ.Extents CloudMQ.CommitLog CloudMQ.Append CloudMQ.Agreement CloudMQ.Recover
open CloudMQ.Records CloudMQ.ValidPrefix CloudMQ.Runs

/-! ### The invariant -/

structure Good (maxMessageSize : ℕ) (r : Rec) : Prop where
  written : r.Written maxMessageSize
  fits : Fits r.message

/-- Records, then a blank record of all that remains. What the records have in common is a
parameter. -/
def Sealed (good : Rec → Prop) (size : ℕ) (f : MapedFile Bytes) : Prop :=
  ∃ recs memory n, (∀ r ∈ recs, good r) ∧
    f.mappedByteBuffer = bytesOf recs ++ blankBytes memory n ∧ 8 ≤ n ∧ f.wrotePostion = size

/-- Records up to the position, and room for a blank record behind them. -/
def Open (good : Rec → Prop) (f : MapedFile Bytes) : Prop :=
  ∃ recs tail, (∀ r ∈ recs, good r) ∧
    f.mappedByteBuffer = bytesOf recs ++ tail ∧ f.wrotePostion = sizes recs ∧ 8 ≤ tail.length

structure Tiled (good : Rec → Prop) (q : MapedFileQueue Bytes) : Prop where
  chained : Chained q
  mapped : Mapped q
  sealed : ∀ f ∈ q.mapedFiles.dropLast, Sealed good q.mapedFileSize f
  last : ∀ f ∈ q.mapedFiles.getLast?, Sealed good q.mapedFileSize f ∨ Open good f

/-- The records `doAppend` writes for the message are good. -/
def Makes (maxMessageSize : ℕ) (good : Rec → Prop) (m : MessageExtBrokerInner) : Prop :=
  ∀ bornHost storeHost queueOffset physicOffset, bornHost.length = 8 → storeHost.length = 8 →
    recordSize m ≤ maxMessageSize → good ⟨m, bornHost, storeHost, queueOffset, physicOffset⟩

lemma makes_good {maxMessageSize : ℕ} {m : MessageExtBrokerInner} (hcrc : OwnCRC m)
    (hfits : Fits m) : Makes maxMessageSize (Good maxMessageSize) m :=
  fun _ _ _ _ hb hs hsize => ⟨⟨hb, hs, hcrc, hsize⟩, hfits⟩

variable {good : Rec → Prop} {q : MapedFileQueue Bytes} {f : MapedFile Bytes}

section Room

variable {maxMessageSize : ℕ} (hgood : ∀ r, good r → Good maxMessageSize r)

include hgood

lemma length_good {recs : List Rec} (h : ∀ r ∈ recs, good r) :
    (bytesOf recs).length = sizes recs := length_bytesOf fun r hr => (hgood r (h r hr)).written

/-- An open file has eight bytes left. -/
lemma Open.room {size : ℕ} (h : Open good f) (hm : f.mappedByteBuffer.length = size) :
    f.wrotePostion + 8 ≤ size := by
  obtain ⟨recs, tail, hg, hbytes, hwrote, htail⟩ := h
  rw [hbytes, List.length_append, length_good hgood hg] at hm
  omega

/-- Zero bytes or at least eight are left in the last file. -/
lemma Tiled.room (h : Tiled good q) (hf : f ∈ q.mapedFiles.getLast?) :
    f.wrotePostion = q.mapedFileSize ∨ f.wrotePostion + 8 ≤ q.mapedFileSize := by
  rcases h.last f hf with ⟨-, -, -, -, -, -, hwrote⟩ | ho
  · exact .inl hwrote
  · exact .inr (ho.room hgood (h.mapped f (List.mem_of_getLast? hf)))

omit hgood in
lemma Sealed.not_lt {size : ℕ} (h : Sealed good size f) : ¬ f.wrotePostion < size := by
  obtain ⟨-, -, -, -, -, -, hwrote⟩ := h
  omega

/-- The file that is written to is open. -/
lemma Tiled.getLastMapedFile (h : Tiled good q) (hsize : 8 ≤ q.mapedFileSize)
    {contents : Option (ℕ → UInt8)} {q' : MapedFileQueue Bytes}
    (hq : q.getLastMapedFile 0 (contents.map (mapMemory q.mapedFileSize)) = (some f, q')) :
    Tiled good q' ∧ Open good f := by
  have hchain := h.chained.getLastMapedFile 0 (contents.map (mapMemory q.mapedFileSize))
  rw [hq] at hchain
  obtain ⟨hlast, hsz, hlt, hlen, rfl | ⟨hfiles, hzero, hfull⟩⟩ :=
    getLastMapedFile_some h.chained h.mapped (length_fresh contents) hq
  · refine ⟨h, ?_⟩
    rcases h.last f hlast with hs | ho
    · exact absurd hlt hs.not_lt
    · exact ho
  · have hopen : Open good f :=
      ⟨[], f.mappedByteBuffer, by simp, by simp, by simpa using hzero, by omega⟩
    refine ⟨⟨hchain, ?_, ?_, ?_⟩, hopen⟩
    · intro g hg
      rw [hfiles] at hg
      rw [hsz]
      rcases List.mem_append.mp hg with hg | hg
      · exact h.mapped g hg
      · rw [List.mem_singleton.mp hg]; exact hlen
    · intro g hg
      rw [hfiles, List.dropLast_concat] at hg
      rw [hsz]
      -- the old last file is full, hence sealed
      rcases List.eq_nil_or_concat q.mapedFiles with hnil | ⟨front, last, hq'⟩
      · rw [hnil] at hg; simp at hg
      · rw [hq', List.concat_eq_append] at hg
        have hl : q.mapedFiles.getLast? = some last := by rw [hq']; simp
        rcases List.mem_append.mp hg with hg | hg
        · exact h.sealed g (by rw [hq', List.concat_eq_append, List.dropLast_concat]; exact hg)
        · rw [List.mem_singleton.mp hg]
          rcases h.last last hl with hs | ho
          · exact hs
          · have := ho.room hgood (h.mapped last (List.mem_of_getLast? hl))
            have := hfull last hl
            omega
    · intro g hg
      rw [hlast, Option.mem_some_iff] at hg
      exact .inr (hg ▸ hopen)

end Room

/-! ### Appending -/

lemma Tiled.setLast (h : Tiled good q) (hlast : q.mapedFiles.getLast? = some f)
    {f' : MapedFile Bytes} (hfrom : f'.fileFromOffset = f.fileFromOffset)
    (hlen : f'.mappedByteBuffer.length = q.mapedFileSize)
    (hwrote : f'.wrotePostion ≤ q.mapedFileSize)
    (hf' : Sealed good q.mapedFileSize f' ∨ Open good f') :
    Tiled good (q.setLast f') := by
  refine ⟨h.chained.setLast hlast hfrom hwrote, forall_mem_setLast h.mapped hlen,
    fun g hg => ?_, fun g hg => ?_⟩
  · simp only [MapedFileQueue.setLast, List.dropLast_concat] at hg
    exact h.sealed g hg
  · simp only [MapedFileQueue.setLast, List.getLast?_append, List.getLast?_singleton,
      Option.some_or, Option.mem_some_iff] at hg
    exact hg ▸ hf'

lemma overwrite_at_length (a b c : Bytes) :
    overwrite (a ++ b) a.length c = a ++ (c ++ b.drop c.length) := by
  rw [overwrite, List.take_left, List.append_assoc, List.drop_append, List.drop_of_length_le
    (Nat.le_add_right _ _), List.nil_append, Nat.add_sub_cancel_left]

section Appending

variable {cfg : MessageStoreConfig} {memory : ℕ → UInt8} {fresh : Option (ℕ → UInt8)}
  {m : MessageExtBrokerInner} {log log' : Log} {result : AppendMessageResult} {bs : Bytes}

section Keeping

variable (hgood : ∀ r, good r → Good cfg.maxMessageSize r)

include hgood

/-- An append turns an open file into an open or a sealed one. -/
lemma grown_tiled (hmakes : Makes cfg.maxMessageSize good m)
    (h : AppendedTo cfg memory fresh m log log' result f q bs) (ho : Open good f) :
    Sealed good log.mapedFileQueue.mapedFileSize (grown f result bs) ∨
      Open good (grown f result bs) := by
  obtain ⟨recs, tail, hg, hbytes, hwrote, htail⟩ := ho
  have hlen := h.length
  have hbl := length_good hgood hg
  have hmem : (grown f result bs).mappedByteBuffer =
      bytesOf recs ++ (bs ++ tail.drop bs.length) := by
    rw [grown, hbytes, hwrote, ← hbl, overwrite_at_length]
  rw [hbytes, List.length_append, hbl] at hlen
  rcases h.wrote with hw | hw | ⟨rfl, rfl, -⟩
  · obtain ⟨bh, sh, hb, hs, hbs⟩ := hw.bytes
    have hfit := hw.fits
    have hbslen := h.length_eq
    rw [hw.wroteBytes] at hbslen
    have hg' : ∀ r ∈ recs ++ [⟨m, bh, sh, result.logicsOffset,
        f.fileFromOffset + f.wrotePostion⟩], good r := by
      intro r hr
      rcases List.mem_append.mp hr with hr | hr
      · exact hg r hr
      · rw [List.mem_singleton.mp hr]
        exact hmakes _ _ _ _ hb hs hw.size_le
    have h8 : END_FILE_MIN_BLANK_LENGTH = 8 := rfl
    refine .inr ⟨_, tail.drop bs.length, hg', ?_, ?_, ?_⟩
    · rw [hmem, bytesOf_append, List.append_assoc, hbs]
      simp [Rec.bytes, Rec.size]
    · rw [grown, hwrote, hw.wroteBytes, sizes_append]
      simp [Rec.size]
    · rw [List.length_drop]
      omega
  · have hbslen := h.length_eq
    rw [hw.wroteBytes] at hbslen
    have hlt := h.lt
    refine .inl ⟨recs, memory, _, hg, ?_, hw.le, ?_⟩
    · rw [hmem, hw.bytes, List.drop_of_length_le, List.append_nil]
      rw [← hw.bytes]
      omega
    · simp only [grown, hw.wroteBytes]
      omega
  · refine .inr ⟨recs, tail, hg, by simpa using hmem, ?_, htail⟩
    simpa [grown, AppendMessageResult.ofStatus] using hwrote

/-- A call of `putMessage` that appends, throws, or finds no file. -/
lemma appendLast_thrown (h : Tiled good log.mapedFileQueue)
    (hsize : 8 ≤ log.mapedFileQueue.mapedFileSize) {e : Thrown}
    (ha : appendLast cfg fresh memory m log = (log', .thrown e)) :
    ∃ (f : MapedFile Bytes) (c : Counters), f.wrotePostion + 8 ≤ log.mapedFileQueue.mapedFileSize ∧
      doAppend cfg.maxMessageSize memory f.fileFromOffset f.wrotePostion
        (log.mapedFileQueue.mapedFileSize - f.wrotePostion)
        (log.mapedFileQueue.mapedFileSize - f.wrotePostion) m log.counters = (c, .error e) ∧
      Tiled good log'.mapedFileQueue ∧
      log'.mapedFileQueue.mapedFileSize = log.mapedFileQueue.mapedFileSize := by
  unfold appendLast at ha
  simp only at ha
  split at ha
  · exact absurd (congrArg Prod.snd ha) (by simp)
  · next f q hq =>
    obtain ⟨-, hsz, hlt, hlen, -⟩ :=
      getLastMapedFile_some h.chained h.mapped (length_fresh fresh) hq
    obtain ⟨h1, h2⟩ := h.getLastMapedFile hgood hsize hq
    split at ha
    · next c e' hap =>
      simp only [Prod.mk.injEq, Appended.thrown.injEq] at ha
      obtain ⟨rfl, rfl⟩ := ha
      unfold appendMessage at hap
      rw [if_pos hlt, hlen] at hap
      refine ⟨f, c, h2.room hgood hlen, ?_, h1, hsz⟩
      split at hap
      · next c' e'' hdo =>
        simp only [Prod.mk.injEq, Except.error.injEq] at hap
        rw [hdo, hap.1, hap.2]
      · exact absurd (congrArg Prod.snd hap) (by simp)
    · exact absurd (congrArg Prod.snd ha) (by simp)

/-- One append keeps the tiling, however it ends. -/
lemma tiled_appendLast (h : Tiled good log.mapedFileQueue)
    (hsize : 8 ≤ log.mapedFileQueue.mapedFileSize) (hmakes : Makes cfg.maxMessageSize good m)
    {out : Appended} (ha : appendLast cfg fresh memory m log = (log', out)) :
    Tiled good log'.mapedFileQueue ∧
      log'.mapedFileQueue.mapedFileSize = log.mapedFileQueue.mapedFileSize := by
  have hok : LogOK log := ⟨h.chained, h.mapped⟩
  cases out with
  | done result =>
    obtain ⟨f, q, bs, hap⟩ := appendLast_done hok ha
    obtain ⟨h1, h2⟩ := h.getLastMapedFile hgood hsize hap.got
    rw [hap.queue]
    refine ⟨h1.setLast hap.last rfl ?_ ?_ ?_, hap.size⟩
    · rw [hap.length_grown, hap.size]
    · rw [hap.size]; exact hap.room
    · rw [hap.size]; exact grown_tiled hgood hmakes hap h2
  | noFile =>
    unfold appendLast at ha
    simp only at ha
    split at ha
    · next q' hq =>
      simp only [Prod.mk.injEq, and_true] at ha
      have hq' : q' = log.mapedFileQueue := by
        unfold MapedFileQueue.getLastMapedFile at hq
        split at hq
        · exact (congrArg Prod.snd hq).symm
        · cases fresh with
          | none => exact (congrArg Prod.snd hq).symm
          | some c => simp at hq
      rw [← ha, hq']
      exact ⟨h, rfl⟩
    · split at ha <;> simp at ha
  | thrown e =>
    obtain ⟨-, -, -, -, h1, h2⟩ := appendLast_thrown hgood h hsize ha
    exact ⟨h1, h2⟩

/-- The synchronised part keeps the tiling. -/
lemma tiled_putLocked {env : Env} (h : Tiled good log.mapedFileQueue)
    (hsize : 8 ≤ log.mapedFileQueue.mapedFileSize) (hmakes : Makes cfg.maxMessageSize good m) :
    Tiled good (putLocked cfg env m log).1.mapedFileQueue ∧
      (putLocked cfg env m log).1.mapedFileQueue.mapedFileSize =
        log.mapedFileQueue.mapedFileSize := by
  unfold putLocked
  split
  · next ha => exact tiled_appendLast hgood h hsize hmakes ha
  · next ha => exact tiled_appendLast hgood h hsize hmakes ha
  · next log₁ result ha =>
    obtain ⟨h1, h2⟩ := tiled_appendLast hgood h hsize hmakes ha
    split
    · exact ⟨h1, h2⟩
    · have hsecond := fun log₂ out => @tiled_appendLast good cfg
        env.msgStoreItemMemory2 env.mapedFile2 m log₁ log₂ hgood h1 (by omega) hmakes out
      split
      · next ha₂ => exact (hsecond _ _ ha₂).imp_right (·.trans h2)
      · next ha₂ => exact (hsecond _ _ ha₂).imp_right (·.trans h2)
      · next ha₂ => exact (hsecond _ _ ha₂).imp_right (·.trans h2)
    · exact ⟨h1, h2⟩
    · exact ⟨h1, h2⟩

lemma tiled_putMessage {env : Env} (h : Tiled good log.mapedFileQueue)
    (hsize : 8 ≤ log.mapedFileQueue.mapedFileSize)
    (hmakes : ∀ m', stored cfg env m = some m' → Makes cfg.maxMessageSize good m') :
    Tiled good (putMessage cfg env m log).1.mapedFileQueue ∧
      (putMessage cfg env m log).1.mapedFileQueue.mapedFileSize =
        log.mapedFileQueue.mapedFileSize := by
  unfold putMessage
  split
  · exact ⟨h, rfl⟩
  · next m₁ tagsCode hprep =>
    have hst : stored cfg env m = some (stamp env m₁) := by rw [stored, hprep]; rfl
    have hlocked := @tiled_putLocked good cfg (stamp env m₁) log hgood env h hsize
      (hmakes _ hst)
    simp only
    split <;> next hl => rw [hl] at hlocked; exact hlocked

end Keeping

/-! ### What follows for one call -/

lemma msgLen_of_fits (hfits : Fits m) (h : 0 ≤ msgLen m) : msgLen m = recordSize m := by
  have := bodyBytes_lt m
  have := hfits.topic
  have := hfits.properties
  have hsize : recordSize m < 2 ^ 32 := by unfold recordSize; omega
  unfold msgLen at *
  rw [BitVec.toInt_eq_toNat_cond, BitVec.toNat_ofNat, Nat.mod_eq_of_lt hsize] at *
  split at h <;> split <;> omega

/-- With eight bytes left, a message that fits overruns neither buffer. -/
lemma doAppend_no_overrun {maxMessageSize fileFromOffset position n : ℕ} {c c' : Counters}
    {e : Thrown} (hfits : Fits m) (h8 : 8 ≤ n)
    (h : doAppend maxMessageSize memory fileFromOffset position n n m c = (c', .error e)) :
    e ≠ .memoryOverflow ∧ e ≠ .sliceOverflow := by
  unfold doAppend at h
  split at h
  · simp only [Prod.mk.injEq, Except.error.injEq] at h
    exact h.2 ▸ ⟨by simp, by simp⟩
  · next storeHost hstore =>
    simp only at h
    split at h
    · exact absurd (congrArg Prod.snd h) (by simp)
    · split at h
      · cases hblank : appendBlank maxMessageSize memory n n with
        | ok bs => simp [hblank] at h
        | error e' =>
          simp only [hblank, Prod.mk.injEq, Except.error.injEq] at h
          unfold appendBlank at hblank
          split_ifs at hblank <;> omega
      · next hroom =>
        cases hrec : appendRecord maxMessageSize n m storeHost (recordQueueOffset m (c.touch m))
            (fileFromOffset + position) with
        | ok bs => simp [hrec] at h
        | error e' =>
          simp only [hrec, Prod.mk.injEq, Except.error.injEq] at h
          obtain ⟨-, rfl⟩ := h
          unfold appendRecord at hrec
          split at hrec
          · cases hrec
            exact ⟨by simp, by simp⟩
          · next hlimit =>
            have hlen := msgLen_of_fits hfits (by omega)
            have h8' : END_FILE_MIN_BLANK_LENGTH = 8 := rfl
            split at hrec
            · cases hrec
              exact ⟨by simp, by simp⟩
            · next bornHost hborn =>
              simp only [length_recordBytes (length_hostBytes hborn) (length_hostBytes hstore)]
                at hrec
              split_ifs at hrec <;> omega

lemma putMessage_no_overrun {env : Env} (h : Tiled (Good cfg.maxMessageSize) log.mapedFileQueue)
    (hsize : 8 ≤ log.mapedFileQueue.mapedFileSize)
    (hfits : ∀ m', stored cfg env m = some m' → Fits m') {e : Thrown}
    (hp : putMessage cfg env m log = (log', .error e)) :
    e ≠ .memoryOverflow ∧ e ≠ .sliceOverflow := by
  have happend : ∀ {m' : MessageExtBrokerInner} {log log' : Log} {fresh memory e}, Fits m' →
      Tiled (Good cfg.maxMessageSize) log.mapedFileQueue →
      8 ≤ log.mapedFileQueue.mapedFileSize →
      appendLast cfg fresh memory m' log = (log', .thrown e) →
        e ≠ .memoryOverflow ∧ e ≠ .sliceOverflow := by
    intro m' log log' fresh memory e hf ht h8 ha
    obtain ⟨f, c, hroom, hdo, -⟩ := appendLast_thrown (fun _ h => h) ht h8 ha
    exact doAppend_no_overrun hf (by omega) hdo
  unfold putMessage at hp
  split at hp
  · simp only [Prod.mk.injEq, Except.error.injEq] at hp
    exact hp.2 ▸ ⟨by simp, by simp⟩
  · next m₁ tagsCode hprep =>
    have hst : stored cfg env m = some (stamp env m₁) := by rw [stored, hprep]; rfl
    simp only at hp
    split at hp
    · next log₁ e' hl =>
      simp only [Prod.mk.injEq, Except.error.injEq] at hp
      obtain ⟨-, rfl⟩ := hp
      unfold putLocked at hl
      split at hl
      · exact absurd (congrArg Prod.snd hl) (by simp)
      · next ha =>
        cases hl
        exact happend (hfits _ hst) h hsize ha
      · next log₂ result ha =>
        obtain ⟨h1, h2⟩ := tiled_appendLast (fun _ h => h) h hsize
          (makes_good (ownCRC_stored hst) (hfits _ hst)) ha
        split at hl
        · exact absurd (congrArg Prod.snd hl) (by simp)
        · split at hl
          · exact absurd (congrArg Prod.snd hl) (by simp)
          · next ha₂ =>
            cases hl
            exact happend (hfits _ hst) h1 (by omega) ha₂
          · exact absurd (congrArg Prod.snd hl) (by simp)
        · exact absurd (congrArg Prod.snd hl) (by simp)
        · exact absurd (congrArg Prod.snd hl) (by simp)
    · exact absurd (congrArg Prod.snd hp) (by simp)
    · exact absurd (congrArg Prod.snd hp) (by simp)

/-- A record that fits the buffer and the file is written. -/
lemma doAppend_ok {maxMessageSize fileFromOffset position n : ℕ} {c : Counters}
    (hstore : (SocketAddress2ByteBuffer m.storeHost).isSome)
    (hborn : (SocketAddress2ByteBuffer m.bornHost).isSome)
    (hlen : msgLen m = recordSize m) (hmax : recordSize m ≤ maxMessageSize)
    (hroom : recordSize m + 8 ≤ n) :
    ∃ c' result bs, doAppend maxMessageSize memory fileFromOffset position n n m c =
      (c', .ok (result, bs)) ∧ result.status = .PUT_OK := by
  obtain ⟨storeHost, hs⟩ := Option.isSome_iff_exists.mp hstore
  obtain ⟨bornHost, hb⟩ := Option.isSome_iff_exists.mp hborn
  have h8 : END_FILE_MIN_BLANK_LENGTH = 8 := rfl
  obtain ⟨bs, hrec⟩ : ∃ bs, appendRecord maxMessageSize n m storeHost
      (recordQueueOffset m (c.touch m)) (fileFromOffset + position) = .ok bs := by
    refine ⟨recordBytes m (Int32.ofInt (msgLen m)) bornHost storeHost
      (recordQueueOffset m (c.touch m)) (fileFromOffset + position), ?_⟩
    unfold appendRecord
    simp only [hb, length_recordBytes (length_hostBytes hb) (length_hostBytes hs)]
    rw [if_neg (by omega), if_neg (by omega), if_neg (by omega)]
  refine ⟨(c.touch m).advance m, ⟨.PUT_OK, fileFromOffset + position, (msgLen m).toNat,
    createMessageId storeHost (fileFromOffset + position), m.storeTimestamp,
    recordQueueOffset m (c.touch m)⟩, bs, ?_, rfl⟩
  unfold doAppend
  simp only [hs, hrec]
  rw [if_neg (by omega), if_neg (by omega)]

/-- The append after `END_OF_FILE` goes to a new file and succeeds. -/
lemma second_append (h : Tiled good log.mapedFileQueue)
    (hsize : cfg.maxMessageSize + 8 ≤ log.mapedFileQueue.mapedFileSize) (hfits : Fits m)
    (hborn : (SocketAddress2ByteBuffer m.bornHost).isSome)
    (ha : appendLast cfg fresh memory m log = (log', .done result))
    (hs : result.status = .END_OF_FILE) (contents memory₂ : ℕ → UInt8) :
    ∃ log₂ result₂, appendLast cfg (some contents) memory₂ m log' = (log₂, .done result₂) ∧
      result₂.status = .PUT_OK := by
  obtain ⟨f, q, bs, hap⟩ := appendLast_done ⟨h.chained, h.mapped⟩ ha
  have hblank : WroteBlank cfg.maxMessageSize (log.mapedFileQueue.mapedFileSize - f.wrotePostion)
      (f.fileFromOffset + f.wrotePostion) memory m log.counters result bs log'.counters := by
    rcases hap.wrote with hw | hw | ⟨rfl, -⟩
    · rw [hw.status] at hs; exact absurd hs (by simp)
    · exact hw
    · exact absurd hs (by simp [AppendMessageResult.ofStatus])
  have hlt := hap.lt
  have hlast : log'.mapedFileQueue.mapedFiles.getLast? = some (grown f result bs) := by
    rw [hap.queue]; simp [MapedFileQueue.setLast]
  have hsz : log'.mapedFileQueue.mapedFileSize = log.mapedFileQueue.mapedFileSize := by
    rw [hap.queue]; exact hap.size
  have hfull : (grown f result bs).isFull log'.mapedFileQueue.mapedFileSize := by
    simp only [grown, MapedFile.isFull, hblank.wroteBytes, hsz, decide_eq_true_eq]
    omega
  have hlen : msgLen m = recordSize m := by
    refine msgLen_of_fits hfits ?_
    have h1 := hblank.no_room
    have h2 := hblank.le
    have h8 : END_FILE_MIN_BLANK_LENGTH = 8 := rfl
    omega
  have hmax := hblank.size_le
  obtain ⟨c, result₂, bs₂, hdo, hok⟩ := @doAppend_ok memory₂ m cfg.maxMessageSize
    ((grown f result bs).fileFromOffset + log'.mapedFileQueue.mapedFileSize) 0
    log'.mapedFileQueue.mapedFileSize log'.counters hblank.storeHost hborn hlen (by omega)
    (by omega)
  refine ⟨(appendLast cfg (some contents) memory₂ m log').1, result₂, Prod.ext rfl ?_, hok⟩
  unfold appendLast MapedFileQueue.getLastMapedFile MapedFileQueue.createOffset appendMessage
  simp only [hlast, hfull, if_true, Option.map_some, length_mapMemory,
    if_pos log'.mapedFileQueue.size_pos, Nat.sub_zero, hdo]

/-- A message is stored only as a whole. -/
lemma stored_complete {env : Env} (h : LogOK log)
    (hsize : cfg.maxMessageSize + 8 ≤ log.mapedFileQueue.mapedFileSize)
    (hp : putLocked cfg env m log = (log', .stored result)) :
    result.status = .PUT_OK ∧ result.wroteBytes = recordSize m ∧ ∃ bornHost storeHost rest,
      bornHost.length = 8 ∧ storeHost.length = 8 ∧
      sliceAt log'.mapedFileQueue result.wroteOffset =
        recordBytes m (Int32.ofNat (recordSize m)) bornHost storeHost result.logicsOffset
          result.wroteOffset ++ rest := by
  obtain ⟨log₁, fresh, memory, f, q, bs, hok₁, hsz, hap, hstatus⟩ := putLocked_stored h hp
  have h8 : END_FILE_MIN_BLANK_LENGTH = 8 := rfl
  have hslice := sliceAt_appended hok₁ hap
  rcases hap.wrote with hw | hw | ⟨rfl, -⟩
  · obtain ⟨bh, sh, hb, hs, hbs⟩ := hw.bytes
    rw [← hw.wroteOffset] at hslice hbs
    exact ⟨hw.status, hw.wroteBytes, bh, sh, _, hb, hs, hbs ▸ hslice⟩
  · -- a blank record fills a new file only when the message is too large for every file
    have h1 := hw.no_room
    have h2 := hw.size_le
    rcases hstatus with hst | ⟨-, hzero⟩
    · rw [hw.status] at hst
      exact absurd hst (by simp)
    · omega
  · rcases hstatus with hst | ⟨hst, -⟩
    · exact absurd hst (by simp [AppendMessageResult.ofStatus])
    · exact absurd hst (by simp [AppendMessageResult.ofStatus])

end Appending

end CloudMQ.Tiling
