import CloudMQ.HATransfer
import CloudMQ.LogBytes

/-!
Replication: a master log that grows, a slave log, and the connection between them, which may be
lost and made again at any time.

The slave puts the bytes of a frame behind the end of its log. It compares the offset of the frame
with that end first, but not while that end is 0: then a frame may land where it does not belong.
-/

namespace CloudMQ.Replication

open CloudMQ.Buffer CloudMQ.Memory CloudMQ.Runs CloudMQ.Segment CloudMQ.Chain CloudMQ.Append
open CloudMQ.Extents CloudMQ.LogBytes CloudMQ.HATransfer

/-- What every commit log is: a chain of completely mapped files, with offsets that are `long`s. -/
structure IsLog (q : MapedFileQueue Bytes) : Prop where
  chained : Chained q
  mapped : Mapped q
  max_lt : q.getMaxOffset < 2 ^ 63

/-- A commit log with files of the given size. -/
structure CommitLog (size : ℕ) where
  queue : MapedFileQueue Bytes
  size_eq : queue.mapedFileSize = size
  isLog : IsLog queue

/-- An offset read from a frame, as a position. -/
def position (offset : Int64) : ℕ := offset.toInt.toNat

/-- The store of the slave. What an append leaves to the operating system is the memory of a new
file, `none` when none can be created. -/
def slaveStore : MessageStore (MapedFileQueue Bytes) (Option (ℕ → UInt8)) where
  getMaxPhyOffset q := Int64.ofNat q.getMaxOffset
  appendToCommitLog fresh offset data q := (appendData fresh (position offset) data q).1

/-- Both sides. `reports` are the offsets the slave reported over this connection, `reported` all
it ever reported. -/
structure HA where
  master : MapedFileQueue Bytes
  slaveRequestOffset : Int64 := -1
  link : Link (MapedFileQueue Bytes)
  currentReportedOffset : ℕ := 0
  reports : List ℕ := []
  reported : List ℕ := []

abbrev HA.slave (s : HA) : MapedFileQueue Bytes := s.link.store

inductive Action
  /-- bytes are appended to the log of the master -/
  | append (fresh : Option (ℕ → UInt8)) (data : Bytes)
  | connectMaster
  /-- the connection is lost, at either end -/
  | closeMaster
  /-- the report that is due from time to time -/
  | reportSlaveMaxOffset
  | reportSlaveMaxOffsetPlus
  /-- the master has read the `i`-th report -/
  | request (i : ℕ)
  /-- a turn of `WriteSocketService` -/
  | run (heartbeat : Bool) (takes : List ℕ)
  | read (n : ℕ)
  | dispatch (fresh : Option (ℕ → UInt8)) (reported : Bool)

namespace HA

variable (s : HA)

/-- The slave sends an offset. -/
def report (offset : ℕ) : HA :=
  { s with reports := s.reports ++ [offset], reported := s.reported ++ [offset] }

/-- A report when the log has grown. -/
def reportSlaveMaxOffsetPlus : HA :=
  if s.currentReportedOffset < s.slave.getMaxOffset then
    { s with currentReportedOffset := s.slave.getMaxOffset }.report s.slave.getMaxOffset
  else s

/-- What a turn of the master finds. -/
def turn (heartbeat : Bool) (takes : List ℕ) : Turn where
  slaveRequestOffset := s.slaveRequestOffset
  maxOffset := Int64.ofNat s.master.getMaxOffset
  heartbeat := heartbeat
  takes := takes
  getCommitLogData offset :=
    (getData s.master (position offset) (position offset = 0)).map (·.byteBuffer)

end HA

variable (cfg : MessageStoreConfig)

def step (s : HA) : Action → Option HA
  | .append fresh data =>
    let q := (appendData fresh 0 data s.master).1
    if q.getMaxOffset < 2 ^ 63 then some { s with master := q } else none
  | .connectMaster =>
    if s.link.client.phase = .closed then
      some { s with
        link := connected s.link.client.byteBufferRead s.link.client.byteBufferBackup s.slave
        slaveRequestOffset := -1
        currentReportedOffset := s.slave.getMaxOffset
        reports := [] }
    else none
  | .closeMaster =>
    some { s with link := { s.link with client := { s.link.client with phase := .closed } } }
  | .reportSlaveMaxOffset =>
    if s.link.client.phase = .closed then none else some (s.report s.currentReportedOffset)
  | .reportSlaveMaxOffsetPlus =>
    if s.link.client.phase = .closed then none else some s.reportSlaveMaxOffsetPlus
  | .request i =>
    if s.slaveRequestOffset < 0 then
      (s.reports[i]?).map fun offset => { s with slaveRequestOffset := Int64.ofNat offset }
    else none
  | .run heartbeat takes =>
    (HATransfer.step slaveStore cfg s.link (.run (s.turn heartbeat takes))).map fun link =>
      { s with link := link }
  | .read n =>
    (HATransfer.step slaveStore cfg s.link (.read n)).map fun link => { s with link := link }
  | .dispatch fresh reported =>
    (HATransfer.step slaveStore cfg s.link (.dispatch fresh reported)).map fun link =>
      if link.client.handed.length = s.link.client.handed.length then { s with link := link }
      else { s with link := link }.reportSlaveMaxOffsetPlus

/-- Before the first connection. -/
def started (master slave : MapedFileQueue Bytes) (byteBufferRead byteBufferBackup : Cells) :
    HA where
  master := master
  link :=
    { master := {}
      client :=
        { byteBufferRead := byteBufferRead
          byteBufferBackup := byteBufferBackup
          phase := .closed }
      store := slave }

/-- The frame that the slave is going to take, when it has been received as a whole. -/
def Takes (s : HA) (f : Frame) : Prop :=
  s.link.client.handed ++ [f] <+: s.link.master.built ∧
    HEADER_SIZE + f.body.length ≤ s.link.client.position - s.link.client.dispatchPosition

/-- A data frame that is taken while the end of the slave's log is 0 begins where its bytes are
put, if there is a file for them. -/
def Placed (s : HA) : Action → Prop
  | .dispatch fresh _ =>
    ∀ f, Takes s f → f.body ≠ [] → s.slave.getMaxOffset = 0 →
      (s.slave.createOffset (position f.offset) = none ∨ fresh.isSome) →
      putAt s.slave (position f.offset) = position f.offset
  | _ => True

/-! ### The frames carry the master's bytes -/

section Frames

variable {cfg} {w w' : WriteSocketService} {t : Turn} {P : Int64 → Prop} {Q : Frame → Prop}

/-- The place to go on from has `P`, once it is set, and the frames have `Q`. -/
structure Produces (P : Int64 → Prop) (Q : Frame → Prop) (w : WriteSocketService) : Prop where
  next : w.nextTransferFromWhere = -1 ∨ P w.nextTransferFromWhere
  built : ∀ f ∈ w.built, Q f

lemma next_write (w : WriteSocketService) (takes : List ℕ) :
    (w.write takes).1.nextTransferFromWhere = w.nextTransferFromWhere :=
  (transferData_spec w takes).next

lemma Produces.write (h : Produces P Q w) (takes : List ℕ) : Produces P Q (w.write takes).1 := by
  refine ⟨?_, fun f hf => h.built f ?_⟩
  · rw [next_write]
    exact h.next
  · exact (transferData_spec w takes).built ▸ hf

/-- What the data of the log has to be. -/
structure Supplies (cfg : MessageStoreConfig) (t : Turn) (P : Int64 → Prop) (Q : Frame → Prop) :
    Prop where
  heartbeat : ∀ o, P o → Q ⟨o, []⟩
  data : ∀ o data, P o → t.getCommitLogData o = some data →
    Q ⟨o, data.take (min data.length cfg.haTransferBatchSize)⟩ ∧
      P (o + Int64.ofNat (min data.length cfg.haTransferBatchSize))

lemma Produces.transfer (h : Produces P Q w) (hP : P w.nextTransferFromWhere)
    (hs : Supplies cfg t P Q) (takes : List ℕ) : Produces P Q (w.transfer cfg t takes) := by
  unfold WriteSocketService.transfer
  split
  · split
    · exact h
    · next data hdata =>
      obtain ⟨h1, h2⟩ := hs.data _ data hP hdata
      refine Produces.write ⟨.inr h2, fun f hf => ?_⟩ takes
      rcases List.mem_append.mp hf with hf | hf
      · exact h.built f hf
      · exact List.mem_singleton.mp hf ▸ h1
  · exact h

/-- **A turn of the master**, as far as the frames go. -/
lemma Produces.run (h : Produces P Q w) (hs : Supplies cfg t P Q)
    (hstart : t.slaveRequestOffset ≠ -1 → P (w.start cfg t).nextTransferFromWhere) :
    Produces P Q (w.run cfg t) := by
  unfold WriteSocketService.run
  split
  · exact h
  · next hreq =>
    have hP := hstart hreq
    have hbuilt : (w.start cfg t).built = w.built := by
      unfold WriteSocketService.start
      split
      · split <;> rfl
      · rfl
    have h1 : Produces P Q (w.start cfg t) := ⟨.inr hP, fun f hf => h.built f (hbuilt ▸ hf)⟩
    simp only
    split
    · split
      · have h2 : Produces P Q (w.start cfg t).buildHeartbeat := by
          refine ⟨.inr hP, fun f hf => ?_⟩
          rcases List.mem_append.mp hf with hf | hf
          · exact h1.built f hf
          · exact List.mem_singleton.mp hf ▸ hs.heartbeat _ hP
        refine (h2.write t.takes).transfer ?_ hs _
        rw [next_write]
        exact hP
      · exact h1.transfer hP hs _
    · refine (h1.write t.takes).transfer ?_ hs _
      rw [next_write]
      exact hP

end Frames

/-! ### Offsets -/

lemma toInt_ofNat {n : ℕ} (h : n < 2 ^ 63) : (Int64.ofNat n).toInt = n := Int64.toInt_ofNat_of_lt h

lemma position_lt (o : Int64) : position o < 2 ^ 63 := by
  have := Int64.toInt_lt o
  unfold position
  omega

lemma position_ofNat {n : ℕ} (h : n < 2 ^ 63) : position (Int64.ofNat n) = n := by
  rw [position, toInt_ofNat h, Int.toNat_natCast]

lemma toInt_add {o : Int64} {n : ℕ} (h : 0 ≤ o.toInt) (hlt : o.toInt + n < 2 ^ 63) :
    (o + Int64.ofNat n).toInt = o.toInt + n := by
  have hn : n < 2 ^ 63 := by omega
  rw [Int64.toInt_add, toInt_ofNat hn]
  exact Int.bmod_eq_of_le (by omega) (by omega)

/-- Where the last file begins. -/
lemma toInt_sub_mod {n size : ℕ} (hn : n < 2 ^ 63) (hsize : size < 2 ^ 31) :
    (Int64.ofNat n - Int64.ofNat n % Int64.ofNat size).toInt = ((n - n % size : ℕ) : ℤ) := by
  have hle := Nat.mod_le n size
  rw [Int64.toInt_sub, Int64.toInt_mod, toInt_ofNat hn, toInt_ofNat (by omega),
    Int.tmod_eq_emod_of_nonneg (by omega), ← Int.natCast_mod, ← Int.ofNat_sub hle]
  exact Int.bmod_eq_of_le (by omega) (by omega)

/-! ### One step -/

/-- A place in the master's log that can be transferred from. -/
def Place (master : MapedFileQueue Bytes) (o : Int64) : Prop :=
  0 ≤ o.toInt ∧ (position o = 0 → master.getMinOffset ≤ 0)

/-- The frame has the bytes of the master at its offset. -/
def Carries (master : MapedFileQueue Bytes) (f : Frame) : Prop :=
  0 ≤ f.offset.toInt ∧
    ∀ i b, f.body[i]? = some b → byteAt master (position f.offset + i) = some b

structure Inv (cfg : MessageStoreConfig) (s : HA) : Prop where
  linked : Linked cfg s.link
  master : IsLog s.master
  size_eq : s.master.mapedFileSize = cfg.mapedFileSizeCommitLog
  slave : IsLog s.slave
  agrees : Agrees s.slave s.master
  produces : Produces (Place s.master) (Carries s.master) s.link.master
  request : s.slaveRequestOffset = -1 ∨ 0 ≤ s.slaveRequestOffset.toInt
  current : s.currentReportedOffset ≤ s.slave.getMaxOffset
  reports : ∀ r ∈ s.reports, r ≤ s.slave.getMaxOffset
  reported : ∀ r ∈ s.reported, r ≤ s.slave.getMaxOffset

section Steps

variable {cfg} {s s' : HA}

lemma putAt_lt {q : MapedFileQueue Bytes} (h : IsLog q) (o : Int64) :
    putAt q (position o) < 2 ^ 63 := by
  by_cases hfiles : q.mapedFiles = []
  · rw [putAt_of_nil hfiles]
    have := position_lt o
    omega
  · rw [putAt_of_ne_nil hfiles]
    exact h.max_lt

/-- The master's log grows: nothing else changes. -/
lemma Inv.append (h : Inv cfg s) {fresh : Option (ℕ → UInt8)} {data : Bytes}
    (hmax : (appendData fresh 0 data s.master).1.getMaxOffset < 2 ^ 63) :
    Inv cfg { s with master := (appendData fresh 0 data s.master).1 } := by
  obtain ⟨⟨hc, hm, hsize⟩, hcases⟩ :=
    appendData_cases fresh 0 data h.master.chained h.master.mapped rfl
  have hkeep : ∀ o b, byteAt s.master o = some b →
      byteAt (appendData fresh 0 data s.master).1 o = some b := by
    intro o b hb
    rcases hcases with ⟨-, hbytes⟩ | ⟨-, -, hbytes⟩
    · exact (hbytes o b).mpr hb
    · exact (hbytes o b).mpr (.inl hb)
  have hmin : s.master.getMinOffset ≤ 0 →
      (appendData fresh 0 data s.master).1.getMinOffset ≤ 0 := by
    intro hle
    rcases getMinOffset_appendData fresh 0 data h.master.chained h.master.mapped with
      heq | ⟨-, heq⟩
    · rw [heq]
      exact hle
    · rw [heq]
      simp
  refine ⟨h.linked, ⟨hc, hm, hmax⟩, hsize.trans h.size_eq, h.slave, ?_, ⟨?_, ?_⟩, h.request,
    h.current, h.reports, h.reported⟩
  · exact fun o b hb => hkeep o b (h.agrees o b hb)
  · exact h.produces.next.imp_right fun hp => ⟨hp.1, fun hzero => hmin (hp.2 hzero)⟩
  · intro f hf
    obtain ⟨h1, h2⟩ := h.produces.built f hf
    exact ⟨h1, fun i b hb => hkeep _ b (h2 i b hb)⟩

/-- The slave's log takes a frame. -/
lemma Inv.take (h : Inv cfg s) {fresh : Option (ℕ → UInt8)} {f : Frame}
    (hf : Carries s.master f)
    (hcheck : slaveStore.getMaxPhyOffset s.slave = 0 ∨
      slaveStore.getMaxPhyOffset s.slave = f.offset)
    (hplaced : f.body ≠ [] → s.slave.getMaxOffset = 0 →
      (s.slave.createOffset (position f.offset) = none ∨ fresh.isSome) →
      putAt s.slave (position f.offset) = position f.offset) :
    IsLog (appendData fresh (position f.offset) f.body s.slave).1 ∧
      Agrees (appendData fresh (position f.offset) f.body s.slave).1 s.master ∧
      s.slave.getMaxOffset ≤
        (appendData fresh (position f.offset) f.body s.slave).1.getMaxOffset := by
  have hle := @max_le_putAt s.slave (position f.offset)
  have hlt := putAt_lt h.slave f.offset
  obtain ⟨⟨hc, hm, -⟩, ⟨hmax, hbytes⟩ | ⟨hfile, hmax, hbytes⟩⟩ :=
    appendData_cases fresh (position f.offset) f.body h.slave.chained h.slave.mapped rfl
  · refine ⟨⟨hc, hm, ?_⟩, fun o b hb => h.agrees o b ((hbytes o b).mp hb), ?_⟩
    · have := h.slave.max_lt
      rcases hmax with hmax | hmax <;> rw [hmax] <;> assumption
    · rcases hmax with hmax | hmax <;> omega
  · -- the bytes have been put, and that is where they belong
    have hput : f.body ≠ [] → putAt s.slave (position f.offset) = position f.offset := by
      intro hne
      by_cases hzero : s.slave.getMaxOffset = 0
      · exact hplaced hne hzero hfile
      · have hoff : f.offset = Int64.ofNat s.slave.getMaxOffset := by
          rcases hcheck with hcheck | hcheck
          · have := congrArg position hcheck
            rw [slaveStore, position_ofNat h.slave.max_lt] at this
            exact absurd this hzero
          · exact hcheck.symm
        have hfiles : s.slave.mapedFiles ≠ [] := fun hnil =>
          hzero (by simp [MapedFileQueue.getMaxOffset, hnil])
        rw [putAt_of_ne_nil hfiles, hoff, position_ofNat h.slave.max_lt]
    have hnew : ∀ i b, f.body[i]? = some b →
        byteAt s.master (putAt s.slave (position f.offset) + i) = some b := by
      intro i b hb
      rw [hput (by rintro hnil; simp [hnil] at hb)]
      exact hf.2 i b hb
    refine ⟨⟨hc, hm, ?_⟩, fun o b hb => ?_, ?_⟩
    · rw [hmax]
      cases hbody : f.body.getLast? with
      | none =>
        rw [List.getLast?_eq_none_iff] at hbody
        simpa [hbody] using hlt
      | some b =>
        have hlen : 0 < f.body.length := by
          rw [List.length_pos_iff]
          rintro hnil
          simp [hnil] at hbody
        rw [List.getLast?_eq_getElem?] at hbody
        have := byteAt_lt h.master.chained h.master.mapped (hnew _ _ hbody)
        have := h.master.max_lt
        omega
    · rcases (hbytes o b).mp hb with hb | ⟨hge, hb⟩
      · exact h.agrees o b hb
      · have := hnew _ b hb
        rwa [Nat.add_sub_cancel' hge] at this
    · omega

/-- The data of the log is what the frames have to carry. -/
lemma Inv.supplies (h : Inv cfg s) (heartbeat : Bool) (takes : List ℕ) :
    Supplies cfg (s.turn heartbeat takes) (Place s.master) (Carries s.master) := by
  refine ⟨fun o hP => ⟨hP.1, by simp⟩, fun o data hP hdata => ?_⟩
  obtain ⟨result, hresult, rfl⟩ := Option.map_eq_some_iff.mp hdata
  have hbyte : ∀ i b, result.byteBuffer[i]? = some b →
      byteAt s.master (position o + i) = some b :=
    fun i b hb => getData_byteAt h.master.chained h.master.mapped hP.2 hresult hb
  have hmax := h.master.max_lt
  have hpos : (position o : ℤ) = o.toInt := Int.toNat_of_nonneg hP.1
  have hend : position o + result.byteBuffer.length < 2 ^ 63 := by
    by_cases hlen : result.byteBuffer.length = 0
    · have := position_lt o
      omega
    · have hlast : result.byteBuffer[result.byteBuffer.length - 1]? =
          some result.byteBuffer[result.byteBuffer.length - 1] :=
        List.getElem?_eq_getElem (by omega)
      have := byteAt_lt h.master.chained h.master.mapped (hbyte _ _ hlast)
      omega
  have hsum := toInt_add hP.1
    (show o.toInt + ((min result.byteBuffer.length cfg.haTransferBatchSize : ℕ) : ℤ) < 2 ^ 63 by
      omega)
  refine ⟨⟨hP.1, fun i b hb => hbyte i b ?_⟩, ?_, fun hzero => hP.2 ?_⟩
  · rw [List.getElem?_take] at hb
    split at hb
    · exact hb
    · exact absurd hb (by simp)
  · omega
  · unfold position at hzero ⊢
    omega

/-- A log that ends inside its first file begins at 0. -/
lemma getMinOffset_of_max_lt {q : MapedFileQueue Bytes} (h : Chained q)
    (hlt : q.getMaxOffset < q.mapedFileSize) : q.getMinOffset ≤ 0 := by
  unfold MapedFileQueue.getMinOffset
  cases hfiles : q.mapedFiles with
  | nil => simp
  | cons first rest =>
    have hmem : first ∈ q.mapedFiles := by simp [hfiles]
    obtain ⟨k, hk⟩ := h.aligned (extent first) (List.mem_map_of_mem hmem)
    change first.fileFromOffset = _ at hk
    have hmax := wrote_le_max h hmem
    have hk0 : k = 0 := by
      by_contra hne
      have := Nat.le_mul_of_pos_right q.mapedFileSize (Nat.pos_of_ne_zero hne)
      omega
    simp [hk, hk0]

/-- Where the first transfer starts. -/
lemma Inv.start (hsize : cfg.mapedFileSizeCommitLog < 2 ^ 31) (h : Inv cfg s) {heartbeat : Bool}
    {takes : List ℕ} (hreq : (s.turn heartbeat takes).slaveRequestOffset ≠ -1) :
    Place s.master (s.link.master.start cfg (s.turn heartbeat takes)).nextTransferFromWhere := by
  have hreq' : 0 ≤ s.slaveRequestOffset.toInt := h.request.resolve_left hreq
  unfold WriteSocketService.start
  by_cases hfirst : s.link.master.nextTransferFromWhere = -1
  · rw [if_pos hfirst]
    by_cases hzero : (s.turn heartbeat takes).slaveRequestOffset = 0
    · rw [if_pos hzero]
      have hoff : ((s.turn heartbeat takes).maxOffset -
          (s.turn heartbeat takes).maxOffset % Int64.ofNat cfg.mapedFileSizeCommitLog).toInt = _ :=
        toInt_sub_mod h.master.max_lt hsize
      simp only
      rw [if_neg (by rw [Int64.lt_iff_toInt_lt, hoff]; simp)]
      refine ⟨by rw [hoff]; omega, fun hpos => getMinOffset_of_max_lt h.master.chained ?_⟩
      rw [position, hoff, Int.toNat_natCast] at hpos
      have := Nat.mod_lt s.master.getMaxOffset s.master.size_pos
      rw [h.size_eq] at this ⊢
      omega
    · simp only [if_neg hzero]
      refine ⟨hreq', fun hpos => absurd ?_ hzero⟩
      refine Int64.toInt_inj.mp ?_
      change s.slaveRequestOffset.toInt.toNat = 0 at hpos
      change s.slaveRequestOffset.toInt = 0
      omega
  · rw [if_neg hfirst]
    exact h.produces.next.resolve_left hfirst

/-- The slave reports the end of its log, or less. -/
lemma Inv.report (h : Inv cfg s) {n current : ℕ} (hn : n ≤ s.slave.getMaxOffset)
    (hcurrent : current ≤ s.slave.getMaxOffset) :
    Inv cfg ({ s with currentReportedOffset := current }.report n) := by
  refine ⟨h.linked, h.master, h.size_eq, h.slave, h.agrees, h.produces, h.request, hcurrent, ?_, ?_⟩
  · intro r hr
    rcases List.mem_append.mp hr with hr | hr
    · exact h.reports r hr
    · exact List.mem_singleton.mp hr ▸ hn
  · intro r hr
    rcases List.mem_append.mp hr with hr | hr
    · exact h.reported r hr
    · exact List.mem_singleton.mp hr ▸ hn

lemma Inv.reportSlaveMaxOffsetPlus (h : Inv cfg s) : Inv cfg s.reportSlaveMaxOffsetPlus := by
  unfold HA.reportSlaveMaxOffsetPlus
  split
  · exact h.report le_rfl le_rfl
  · exact h

lemma Receiving.close {w : WriteSocketService} {c : HAClient} (h : Receiving w c) :
    Receiving w { c with phase := .closed } :=
  ⟨h.handed, fun hne => absurd rfl hne, fun hread => absurd hread (by simp)⟩

variable (hbatch : HEADER_SIZE + cfg.haTransferBatchSize ≤ ReadMaxBufferSize)
include hbatch

/-- A turn of the slave. -/
lemma Inv.dispatch (h : Inv cfg s) {fresh : Option (ℕ → UInt8)} {reported : Bool}
    {link : Link (MapedFileQueue Bytes)}
    (hs : HATransfer.step slaveStore cfg s.link (.dispatch fresh reported) = some link)
    (hok : Placed s (.dispatch fresh reported)) : Inv cfg { s with link := link } := by
  have hlinked := step_linked hbatch h.linked hs
  simp only [HATransfer.step] at hs
  split at hs
  · next hphase =>
    have hb := h.linked.receiving.buffered (by simp [hphase])
    obtain rfl := Option.some.inj hs
    rcases @dispatchReadRequest_cases cfg _ _ _ _ slaveStore fresh reported s.slave hbatch hb
      h.linked.sending h.linked.receiving.handed with
      heq | ⟨f, hf, hall, hcheck, heq⟩ | ⟨-, heq⟩
    · rw [heq] at hlinked ⊢
      exact ⟨hlinked, h.master, h.size_eq, h.slave, h.agrees, h.produces, h.request, h.current,
        h.reports, h.reported⟩
    · rw [heq] at hlinked ⊢
      obtain ⟨h1, h2, h3⟩ := h.take (h.produces.built f (hf.subset (by simp))) hcheck
        (fun hne hzero hfile => hok f ⟨hf, hall⟩ hne hzero hfile)
      exact ⟨hlinked, h.master, h.size_eq, h1, h2, h.produces, h.request, h.current.trans h3,
        fun r hr => (h.reports r hr).trans h3, fun r hr => (h.reported r hr).trans h3⟩
    · rw [heq] at hlinked ⊢
      exact ⟨hlinked, h.master, h.size_eq, h.slave, h.agrees, h.produces, h.request, h.current,
        h.reports, h.reported⟩
  · exact absurd hs (by simp)

/-- **One step.** -/
lemma step_inv (hsize : cfg.mapedFileSizeCommitLog < 2 ^ 31) {a : Action} (h : Inv cfg s)
    (hok : Placed s a) (hs : step cfg s a = some s') : Inv cfg s' := by
  cases a with
  | append fresh data =>
    simp only [step] at hs
    split at hs
    · next hmax =>
      obtain rfl := Option.some.inj hs
      exact h.append hmax
    · exact absurd hs (by simp)
  | connectMaster =>
    simp only [step] at hs
    split at hs
    · obtain rfl := Option.some.inj hs
      exact ⟨linked_connected _ _ _, h.master, h.size_eq, h.slave, h.agrees,
        ⟨.inl rfl, by simp [connected]⟩, .inl rfl, le_rfl, by simp, h.reported⟩
    · exact absurd hs (by simp)
  | closeMaster =>
    obtain rfl := Option.some.inj hs
    exact ⟨⟨h.linked.sending, Receiving.close h.linked.receiving⟩, h.master, h.size_eq, h.slave,
      h.agrees, h.produces, h.request, h.current, h.reports, h.reported⟩
  | reportSlaveMaxOffset =>
    simp only [step] at hs
    split at hs
    · exact absurd hs (by simp)
    · obtain rfl := Option.some.inj hs
      exact h.report h.current h.current
  | reportSlaveMaxOffsetPlus =>
    simp only [step] at hs
    split at hs
    · exact absurd hs (by simp)
    · obtain rfl := Option.some.inj hs
      exact h.reportSlaveMaxOffsetPlus
  | request i =>
    simp only [step] at hs
    split at hs
    · obtain ⟨offset, hget, rfl⟩ := Option.map_eq_some_iff.mp hs
      have hle := h.reports offset (List.mem_of_getElem? hget)
      refine ⟨h.linked, h.master, h.size_eq, h.slave, h.agrees, h.produces, .inr ?_, h.current,
        h.reports, h.reported⟩
      rw [toInt_ofNat (lt_of_le_of_lt hle h.slave.max_lt)]
      omega
    · exact absurd hs (by simp)
  | run heartbeat takes =>
    simp only [step, Option.map_eq_some_iff] at hs
    obtain ⟨link, hlink, rfl⟩ := hs
    have hlinked := step_linked hbatch h.linked hlink
    obtain rfl := Option.some.inj hlink
    have hprod := h.produces.run (h.supplies heartbeat takes) (fun hreq => h.start hsize hreq)
    exact ⟨hlinked, h.master, h.size_eq, h.slave, h.agrees, hprod, h.request, h.current,
      h.reports, h.reported⟩
  | read n =>
    obtain ⟨link, hlink, rfl⟩ := Option.map_eq_some_iff.mp hs
    have hlinked := step_linked hbatch h.linked hlink
    simp only [HATransfer.step] at hlink
    split at hlink
    · obtain rfl := Option.some.inj hlink
      exact ⟨hlinked, h.master, h.size_eq, h.slave, h.agrees, h.produces, h.request, h.current,
        h.reports, h.reported⟩
    · exact absurd hlink (by simp)
  | dispatch fresh reported =>
    obtain ⟨link, hlink, rfl⟩ := Option.map_eq_some_iff.mp hs
    have hinv := h.dispatch hbatch hlink hok
    split
    · exact hinv
    · exact hinv.reportSlaveMaxOffsetPlus

end Steps

/-! ### Runs -/

/-- What is said of the two logs. -/
structure Replicated (s : HA) : Prop where
  bytes : ∀ o : ℕ, s.slave.getMinOffset ≤ o → o < s.slave.getMaxOffset →
    ∃ b, byteAt s.slave o = some b ∧ byteAt s.master o = some b
  reported : ∀ r ∈ s.reported, r ≤ s.slave.getMaxOffset

variable {cfg}

lemma Inv.replicated {s : HA} (h : Inv cfg s) : Replicated s := by
  refine ⟨fun o hmin hmax => ?_, h.reported⟩
  obtain ⟨b, hb⟩ := exists_byteAt h.slave.chained h.slave.mapped hmin hmax
  exact ⟨b, hb, h.agrees o b hb⟩

lemma inv_started {master slave : CommitLog cfg.mapedFileSizeCommitLog}
    (hagree : Agrees slave.queue master.queue) (byteBufferRead byteBufferBackup : Cells) :
    Inv cfg (started master.queue slave.queue byteBufferRead byteBufferBackup) where
  linked :=
    have h : Linked cfg (connected byteBufferRead byteBufferBackup slave.queue) :=
      linked_connected _ _ _
    ⟨h.sending, Receiving.close h.receiving⟩
  master := master.isLog
  size_eq := master.size_eq
  slave := slave.isLog
  agrees := hagree
  produces := ⟨.inl rfl, by simp [started]⟩
  request := .inl rfl
  current := Nat.zero_le _
  reports := by simp [started]
  reported := by simp [started]

/-- **Replication is safe.** From any two logs that agree, however the connection is lost and made
again and whichever files cannot be created, as long as no data frame is taken at offset 0 that
begins elsewhere: the slave has the master's bytes over its whole range, and has reported no more
than it has. -/
theorem replication_safety (hbatch : HEADER_SIZE + cfg.haTransferBatchSize ≤ ReadMaxBufferSize)
    (hsize : cfg.mapedFileSizeCommitLog < 2 ^ 31)
    {master slave : CommitLog cfg.mapedFileSizeCommitLog}
    (hagree : Agrees slave.queue master.queue) {byteBufferRead byteBufferBackup : Cells}
    {actions : List Action} {s : HA}
    (hok : Meets (step cfg) Placed
      (started master.queue slave.queue byteBufferRead byteBufferBackup) actions)
    (hr : run (step cfg) (started master.queue slave.queue byteBufferRead byteBufferBackup)
      actions = some s) : Replicated s := by
  have hinv : Inv cfg s :=
    run_invariant (fun _ _ _ h hok hs => step_inv hbatch hsize h hok hs)
      (inv_started hagree byteBufferRead byteBufferBackup) hok hr
  exact hinv.replicated

/-! ### Small logs -/

lemma pos_16 : 0 < 16 := by decide

def small (files : List (MapedFile Bytes)) : MapedFileQueue Bytes :=
  ⟨16, pos_16, files, 0, 0⟩

/-- A master whose older files have been deleted. -/
def lastFile : MapedFile Bytes :=
  { fileFromOffset := 16, mappedByteBuffer := 1 :: 2 :: List.replicate 14 0, wrotePostion := 2 }

lemma isLog_lastFile : IsLog (small [lastFile]) where
  chained := Contiguous.nil.snoc (by simp) ⟨1, rfl⟩ (show 2 ≤ 16 by decide)
  mapped := by simp [Mapped, small, lastFile]
  max_lt := show 18 < 2 ^ 63 by decide

lemma isLog_nil : IsLog (small []) where
  chained := Contiguous.nil
  mapped := by simp [Mapped, small]
  max_lt := show 0 < 2 ^ 63 by decide

def smallMaster : CommitLog 16 := ⟨small [lastFile], rfl, isLog_lastFile⟩

def emptySlave : CommitLog 16 := ⟨small [], rfl, isLog_nil⟩

lemma agrees_empty : Agrees emptySlave.queue smallMaster.queue := by
  intro o b hb
  simp [emptySlave, small, byteAt, MapedFileQueue.findMapedFileByOffset] at hb

/-- One byte in a frame. -/
def oneByte : MessageStoreConfig := ⟨1, 16⟩

/-- The slave asks for everything and takes two frames. A file for the first one may or may not be
created. -/
def twoFrames (fresh : Option (ℕ → UInt8)) : List Action :=
  [.connectMaster, .reportSlaveMaxOffset, .request 0, .run false [12, 1], .run false [12, 1],
    .read 13, .dispatch fresh true, .dispatch fresh true, .read 13,
    .dispatch (some fun _ => 0) true]

/-- The first file cannot be created: the second byte is put where the first belongs. -/
theorem replication_safety_misplaced :
    ∃ s, run (step oneByte) (started smallMaster.queue emptySlave.queue (fun _ => 0) fun _ => 0)
        (twoFrames none) = some s ∧ ¬ Replicated s := by
  refine ⟨_, rfl, fun h => ?_⟩
  obtain ⟨b, h1, h2⟩ := h.bytes 16 (by decide) (by decide)
  have h3 : some b = some 2 := h1.symm
  have h4 : some b = some 1 := h2.symm
  exact absurd (h3.symm.trans h4) (by decide)

/-- `Placed`, evaluated. -/
def placed (s : HA) : Action → Bool
  | .dispatch _ _ =>
    (s.link.master.built[s.link.client.handed.length]?).all fun f =>
      s.slave.getMaxOffset ≠ 0 || putAt s.slave (position f.offset) = position f.offset
  | _ => true

lemma placed_of_check {s : HA} {a : Action} (h : placed s a) : Placed s a := by
  cases a with
  | dispatch fresh reported =>
    rintro f ⟨⟨rest, hrest⟩, -⟩ - hzero -
    have hget : s.link.master.built[s.link.client.handed.length]? = some f := by
      rw [← hrest]
      simp
    simp only [placed, hget, Option.all_some, hzero] at h
    simpa using h
  | _ => trivial

theorem replication_safety_two_frames :
    ∃ s, run (step oneByte) (started smallMaster.queue emptySlave.queue (fun _ => 0) fun _ => 0)
        (twoFrames (some fun _ => 0)) = some s ∧ s.slave.getMaxOffset = 18 ∧ Replicated s := by
  refine ⟨_, rfl, by decide, ?_⟩
  exact @replication_safety oneByte (by decide) (by decide) smallMaster emptySlave agrees_empty
    (fun _ => 0) (fun _ => 0) (twoFrames (some fun _ => 0)) _
    (meets_of_checks (fun _ _ h => placed_of_check h) (by decide)) rfl

end CloudMQ.Replication
