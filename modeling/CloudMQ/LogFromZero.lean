import CloudMQ.DelayDetour
import CloudMQ.PullScan
import CloudMQ.Restart

/-!
A commit log that begins at offset zero and whose files can all be read: puts keep it so, what
stands in it is read by an entry that points at it, and a restart finds its end again.
-/

namespace CloudMQ.LogFromZero

open CloudMQ.Buffer CloudMQ.Message CloudMQ.Record CloudMQ.Codec CloudMQ.Segment CloudMQ.Chain
open CloudMQ.Extents CloudMQ.CommitLog CloudMQ.Append CloudMQ.Agreement CloudMQ.LogBytes
open CloudMQ.Recover CloudMQ.Records CloudMQ.Tiling CloudMQ.Restart CloudMQ.Puts CloudMQ.Units
open CloudMQ.ConsumeQueues CloudMQ.PullScan
open CloudMQ.DelayDetour (StandsInFile)

/-- No file is deleted, or is about to be. -/
structure FromZero (q : MapedFileQueue Bytes) : Prop where
  starts : StartsAt 1 0 q
  available : ∀ f ∈ q.mapedFiles, f.available

lemma fromZero_empty {size : ℕ} (hpos : 0 < size) : FromZero (Chain.empty size hpos) where
  starts := by simp [StartsAt, Chain.empty]
  available := by simp [Chain.empty]

/-! ### Putting -/

section Put

variable {cfg : MessageStoreConfig} {fresh : Option (ℕ → UInt8)} {memory : ℕ → UInt8}
  {m : MessageExtBrokerInner} {log log' : Log} {q q' : MapedFileQueue Bytes}
  {f f' : MapedFile Bytes}

lemma FromZero.getLastMapedFile (h : FromZero q) (hc : Chained q) {mem : Option Bytes}
    (hq : q.getLastMapedFile 0 mem = (some f, q')) : FromZero q' := by
  refine ⟨h.starts.getLastMapedFile hc (fun _ => by simp) hq, fun g hg => ?_⟩
  obtain ⟨-, -, -, rfl | ⟨-, hfiles, -, havailable, -⟩⟩ := getLastMapedFile_cases hc hq
  · exact h.available g hg
  · rw [hfiles] at hg
    rcases List.mem_append.mp hg with hg | hg
    · exact h.available g hg
    · rw [List.mem_singleton.mp hg]
      exact havailable

lemma FromZero.setLast (h : FromZero q) (hlast : q.mapedFiles.getLast? = some f)
    (hfrom : f'.fileFromOffset = f.fileFromOffset) (havailable : f'.available = f.available) :
    FromZero (q.setLast f') where
  starts := h.starts.setLast hlast hfrom
  available := forall_mem_setLast h.available
    (havailable.trans (h.available f (List.mem_of_getLast? hlast)))

/-- A file is appended to where it is. -/
lemma appendMessage_file {maxMessageSize size : ℕ} {c c' : Counters} {result : AppendMessageResult}
    (h : appendMessage maxMessageSize memory size f m c = (c', .ok (result, f'))) :
    f'.fileFromOffset = f.fileFromOffset ∧ f'.available = f.available := by
  unfold appendMessage at h
  split at h
  · split at h
    · exact absurd (congrArg Prod.snd h) (by simp)
    · simp only [Prod.mk.injEq, Except.ok.injEq] at h
      obtain ⟨-, -, rfl⟩ := h
      exact ⟨rfl, rfl⟩
  · simp only [Prod.mk.injEq, Except.ok.injEq] at h
    obtain ⟨-, -, rfl⟩ := h
    exact ⟨rfl, rfl⟩

lemma FromZero.appendLast (h : FromZero log.mapedFileQueue) (hlog : LogOK log) :
    FromZero (appendLast cfg fresh memory m log).1.mapedFileQueue := by
  unfold CommitLog.appendLast
  simp only
  split
  · next q hq =>
    obtain ⟨rfl, -⟩ := getLastMapedFile_none hq
    exact h
  · next f q hq =>
    have hgot := h.getLastMapedFile hlog.chained hq
    split
    · exact hgot
    · next c result f' happ =>
      obtain ⟨hlast, -⟩ := getLastMapedFile_cases hlog.chained hq
      obtain ⟨hfrom, havailable⟩ := appendMessage_file happ
      exact hgot.setLast hlast hfrom havailable

lemma FromZero.putLocked {env : Env} (h : FromZero log.mapedFileQueue) (hlog : LogOK log) :
    FromZero (putLocked cfg env m log).1.mapedFileQueue := by
  have happ : FromZero
      (CommitLog.appendLast cfg env.mapedFile1 env.msgStoreItemMemory1 m log).1.mapedFileQueue :=
    h.appendLast hlog
  unfold CommitLog.putLocked
  split
  · next ha => rwa [ha] at happ
  · next ha => rwa [ha] at happ
  · next log₁ result ha =>
    rw [ha] at happ
    obtain ⟨hkept, -⟩ := appendLast_spec hlog ha
    have happ₂ : FromZero
        (CommitLog.appendLast cfg env.mapedFile2 env.msgStoreItemMemory2 m log₁).1.mapedFileQueue :=
      FromZero.appendLast happ hkept.ok
    split
    · exact happ
    · split <;> next ha₂ => rwa [ha₂] at happ₂
    · exact happ
    · exact happ

/-- A put keeps the log from zero on. -/
lemma FromZero.putMessage {env : Env} (h : FromZero log.mapedFileQueue) (hlog : LogOK log) :
    FromZero (putMessage cfg env m log).1.mapedFileQueue := by
  unfold CommitLog.putMessage
  split
  · exact h
  · next m₁ tagsCode hprep =>
    have hlocked : FromZero (CommitLog.putLocked cfg env (stamp env m₁) log).1.mapedFileQueue :=
      h.putLocked hlog
    simp only
    split <;> next hl => rwa [hl] at hlocked

end Put

/-! ### Reading -/

section Read

variable {q : MapedFileQueue Bytes} {o : ℕ} {bs : Bytes} {u : CQUnit}

/-- **An entry reads what it points at.** -/
lemma recordAt_of_stands (hc : Chained q) (hm : Mapped q) (hz : FromZero q)
    (h : StandsInFile q o bs) (hpos : 0 < bs.length) (hoff : u.offset.toInt = o)
    (hsize : u.size.toInt = bs.length) : PointsAt q u ∧ recordAt q u = some ⟨o, bs⟩ := by
  obtain ⟨hst, hin⟩ := h
  have hnat : u.offset.toInt.toNat = o := by omega
  have hlen : u.size.toInt.toNat = bs.length := by omega
  have hlast := byteAt_lt hc hm
    (hst (bs.length - 1) _ (List.getElem?_eq_getElem (Nat.sub_lt hpos Nat.one_pos)))
  obtain ⟨f, hf, hle, hb⟩ := (byteAt_eq_some_iff hc hm).mp
    (hst 0 _ (List.getElem?_eq_getElem hpos))
  have hwrote := (List.getElem?_eq_some_iff.mp hb).1
  rw [length_written hc hm hf] at hwrote
  have hfull := wrote_le hc hf
  have hmod := mod_eq_sub hc hf (o := o) (by omega) (by omega)
  have hserves : Serves q u.offset.toInt.toNat f := ⟨hz.available f hf, by omega, by omega⟩
  refine ⟨⟨by omega, by omega, by rw [hnat, hlen]; exact hin, by omega⟩, ?_⟩
  rw [recordAt_of_serves hc hf hserves, hnat, hlen]
  congr 2
  refine List.ext_getElem? fun i => ?_
  rcases Nat.lt_or_ge i bs.length with hi | hi
  · -- the file that has the first byte has the others, too
    have hbyte := hst i _ (List.getElem?_eq_getElem hi)
    rw [byteAt, find_of_mem hc hf (by omega) (by omega), Option.bind_some,
      mod_eq_sub hc hf (by omega) (by omega), written] at hbyte
    have hlt := (List.getElem?_eq_some_iff.mp hbyte).1
    rw [List.length_take] at hlt
    rw [List.getElem?_take_of_lt (by omega)] at hbyte
    rw [List.getElem?_take_of_lt hi, List.getElem?_drop, List.getElem?_eq_getElem hi, ← hbyte]
    congr 1
    omega
  · rw [List.getElem?_eq_none hi, List.getElem?_eq_none]
    rw [List.length_take]
    omega

end Read

/-! ### A restart -/

section Recovery

variable {cfg : MessageStoreConfig} {svc : Option ScheduleMessageService} {checkCRC : Bool}
  {good : Rec → Prop} {q q' : MapedFileQueue Bytes}

/-- Records that a reader goes through. -/
structure Readback (cfg : MessageStoreConfig) (svc : Option ScheduleMessageService) (r : Rec) :
    Prop where
  good : Good cfg.maxMessageSize r
  readable : r.Readable svc

/-- Files that end with a blank record, and a last one: the scan ends behind the last record. -/
lemma scanFiles_settled {files : List (MapedFile Bytes)} {last : MapedFile Bytes} {size : ℕ}
    {recs : List Rec} {tail : Bytes}
    (hfiles : ∀ f ∈ files, Sealed (Readback cfg svc) size f)
    (hrecs : ∀ r ∈ recs, Readback cfg svc r) (hlast : last.mappedByteBuffer = bytesOf recs ++ tail)
    (htail : (recoverCheck cfg svc checkCRC tail).1.msgSize = -1 ∨
      (recoverCheck cfg svc checkCRC tail).1.msgSize = 0) :
    ∃ ds, scanFiles (recoverCheck cfg svc checkCRC) (files ++ [last]) =
      some (last.fileFromOffset + sizes recs, ds) := by
  induction files with
  | nil =>
    obtain ⟨fileEnd, hend⟩ := scanBuffer_tail htail
    have hscan := scanFile_recs (fun r hr => (hrecs r hr).good.written)
      (fun r hr => (hrecs r hr).readable) hlast hend
    exact ⟨_, by rw [List.nil_append, scanFiles, hscan]; rfl⟩
  | cons f files ih =>
    obtain ⟨ds, hds⟩ := ih fun g hg => hfiles g (List.mem_cons_of_mem _ hg)
    obtain ⟨recs', memory, n, hrecs', hbytes, -, -⟩ := hfiles f List.mem_cons_self
    have hblank := @scanBuffer_blank cfg svc checkCRC memory n []
    rw [List.append_nil] at hblank
    have hscan := scanFile_recs (fun r hr => (hrecs' r hr).good.written)
      (fun r hr => (hrecs' r hr).readable) hbytes hblank
    cases hrest : files ++ [last] with
    | nil => simp at hrest
    | cons g rest =>
      rw [hrest] at hds
      refine ⟨recs'.map (Rec.request svc) ++ ds, ?_⟩
      rw [List.cons_append, hrest, scanFiles, hscan, Option.bind_some]
      dsimp only
      rw [hds]
      rfl

/-- **A restart** of a log whose last file has room finds every file as it was left. -/
lemma mapedFiles_recoverNormally (h : Tiled (Readback cfg svc) q)
    (hquiet : Quiet (recoverCheck cfg svc checkCRC) q)
    (hroom : ∀ last ∈ q.mapedFiles.getLast?, last.wrotePostion < q.mapedFileSize)
    (hq : recoverNormally (recoverCheck cfg svc checkCRC) (reload q) = some q') :
    q'.mapedFiles = q.mapedFiles.map resume ∧ q'.mapedFileSize = q.mapedFileSize := by
  have hgood : ∀ r, Readback cfg svc r → Good cfg.maxMessageSize r := fun r hr => hr.good
  rcases List.eq_nil_or_concat q.mapedFiles with hnil | ⟨front, last, hfiles⟩
  · have hnil' : (reload q).mapedFiles = [] := by rw [mapedFiles_reload, hnil]; rfl
    rw [recoverNormally, if_pos hnil', Option.some.injEq] at hq
    rw [← hq, hnil', hnil]
    exact ⟨rfl, rfl⟩
  rw [List.concat_eq_append] at hfiles
  have hgetLast : q.mapedFiles.getLast? = some last := by rw [hfiles, List.getLast?_concat]
  have hlt := hroom last hgetLast
  obtain ⟨recs, tail, hrecs, hbytes, hwrote, -⟩ := (h.last last hgetLast).resolve_left
    fun hs => hs.not_lt hlt
  have htail := hquiet last hgetLast hlt
  rw [hbytes, hwrote, ← length_good hgood hrecs, List.drop_left] at htail
  let mapped := fun f : MapedFile Bytes =>
    MapedFileQueue.loadFile q.mapedFileSize f.fileFromOffset f.mappedByteBuffer
  have hreload : (reload q).mapedFiles = front.map mapped ++ [mapped last] := by
    rw [mapedFiles_reload, hfiles, List.map_append, List.map_singleton]
  have hdrop : (reload q).mapedFiles.drop ((reload q).mapedFiles.length - 3) =
      (front.drop (front.length - 2)).map mapped ++ [mapped last] := by
    rw [hreload, List.length_append, List.length_map, List.length_singleton,
      List.drop_append_of_le_length (by simp), List.map_drop]
    rfl
  have hsealed : ∀ f ∈ (front.drop (front.length - 2)).map mapped,
      Sealed (Readback cfg svc) q.mapedFileSize f := by
    intro f hf
    obtain ⟨f₀, hf₀, rfl⟩ := List.mem_map.mp hf
    obtain ⟨recs', memory, n, hg, hb, hn, -⟩ := h.sealed f₀ (by
      rw [hfiles, List.dropLast_concat]
      exact List.mem_of_mem_drop hf₀)
    exact ⟨recs', memory, n, hg, hb, hn, rfl⟩
  have hlast : (mapped last).mappedByteBuffer = _ := hbytes
  obtain ⟨ds, hds⟩ := scanFiles_settled hsealed hrecs hlast htail
  have hne : ¬(reload q).mapedFiles = [] := by rw [hreload]; simp
  rw [recoverNormally, if_neg hne, hdrop, hds, Option.map_some, Option.some.injEq] at hq
  have hle := wrote_le h.chained (List.mem_of_getLast? hgetLast)
  have hfrom : (mapped last).fileFromOffset ≤ last.fileFromOffset + sizes recs :=
    Nat.le_add_right _ _
  have hto : last.fileFromOffset + sizes recs < (mapped last).fileFromOffset + q.mapedFileSize :=
    Nat.add_lt_add_left (hwrote ▸ hlt) _
  have hcut := mapedFiles_cutAt_of_split (chained_reload h.chained)
    (show (reload q).mapedFiles = front.map mapped ++ mapped last :: [] from hreload) hfrom hto
  rw [← hq]
  refine ⟨hcut.trans ?_, rfl⟩
  rw [hfiles, List.map_append, List.map_singleton]
  refine congrArg₂ _ (List.map_congr_left fun f hf => ?_) ?_
  · have hfull := full_of_mem_dropLast h.chained (f := f) (by rwa [hfiles, List.dropLast_concat])
    simp only [mapped, resume, hfull]
  · have hsub : last.fileFromOffset + sizes recs - last.fileFromOffset = last.wrotePostion := by
      omega
    simp only [mapped, MapedFileQueue.loadFile, cutFile, resume, Nat.add_sub_cancel_left, ← hwrote,
      Nat.min_eq_right hle]

/-- Such a log has the bytes that it had, and the end. -/
lemma resumed (hc : Chained q) (hm : Mapped q) (hz : FromZero q)
    (hfiles : q'.mapedFiles = q.mapedFiles.map resume)
    (hsize : q'.mapedFileSize = q.mapedFileSize) :
    Chained q' ∧ Mapped q' ∧ FromZero q' ∧ Agrees q q' ∧ q'.getMaxOffset = q.getMaxOffset := by
  have hext : q'.mapedFiles.map extent = q.mapedFiles.map extent := by
    rw [hfiles, List.map_map]
    rfl
  have hc' : Chained q' := by
    rw [Chained, extents, hext, hsize]
    exact hc
  have hm' : Mapped q' := by
    intro f hf
    rw [hfiles] at hf
    obtain ⟨f₀, hf₀, rfl⟩ := List.mem_map.mp hf
    rw [hsize]
    exact hm f₀ hf₀
  refine ⟨hc', hm', ⟨hz.starts.of_extents hext, fun f hf => ?_⟩, fun o b hb => ?_, ?_⟩
  · rw [hfiles] at hf
    obtain ⟨f₀, -, rfl⟩ := List.mem_map.mp hf
    rfl
  · obtain ⟨f, hf, hle, hb⟩ := (byteAt_eq_some_iff hc hm).mp hb
    exact (byteAt_eq_some_iff hc' hm').mpr
      ⟨resume f, by rw [hfiles]; exact List.mem_map_of_mem hf, hle, hb⟩
  · rw [getMaxOffset_eq, getMaxOffset_eq, extents, extents, hext]

end Recovery

end CloudMQ.LogFromZero
