import CloudMQ.StateTableRebuild

/-!
The scan of the redo log that `recreateStateTable` makes, over a redo log of any content.

The scan reads the log buffer by buffer, and a buffer ends with a file. What it reads of a buffer
is counted in bytes and added to the number of an entry, so that behind the first buffer the scan
passes over the entries that follow: it sees all of them as long as one file holds them.
-/

namespace CloudMQ.RedoLogScan

open CloudMQ.Buffer CloudMQ.Strings CloudMQ.Message CloudMQ.Record CloudMQ.CommitLog
open CloudMQ.Segment CloudMQ.Chain CloudMQ.Units CloudMQ.ConsumeQueues CloudMQ.QueueEntries
open CloudMQ.ConsumeQueues.ConsumeQueue
open CloudMQ.SortedMaps CloudMQ.TransactionState CloudMQ.MessageDecoder CloudMQ.EndTransaction
open CloudMQ.StateTableRebuild

/-! ### What is to be recreated -/

/-- A redo log: files of whole entries, none of them taken away, and a min offset that is the
number of an entry. -/
structure RedoLog (tranRedoLog : ConsumeQueue) : Prop where
  whole : WholeQueue tranRedoLog
  available : ∀ f ∈ tranRedoLog.mapedFileQueue.mapedFiles, f.available
  dvd_min : CQStoreUnitSize ∣ tranRedoLog.minLogicOffset

/-- The numbers of the entries the scan reads, in its order; `none` is a scan that has not ended
yet. -/
def visits (tranRedoLog : ConsumeQueue) : ℕ → ℕ → Option (List ℕ)
  | 0, _ => none
  | fuel + 1, processOffset =>
    match getIndexBuffer tranRedoLog processOffset with
    | none => some []
    | some us =>
      (visits tranRedoLog fuel (processOffset + CQStoreUnitSize * us.length)).map
        (List.range' processOffset us.length ++ ·)

/-- The visits of `recreateStateTable`. -/
def visited (tranRedoLog : ConsumeQueue) : Option (List ℕ) :=
  visits tranRedoLog (tranRedoLog.getMaxOffsetInQuque + 1) tranRedoLog.getMinOffsetInQuque

/-- The scan comes to its end, having visited every entry exactly once. -/
def VisitsAll (tranRedoLog : ConsumeQueue) : Prop :=
  ∃ is, visited tranRedoLog = some is ∧ ∀ i, is.count i =
    if tranRedoLog.getMinOffsetInQuque ≤ i ∧ (entryAt tranRedoLog i).isSome then 1 else 0

/-- The entry ends the prepared message at offset `o`. -/
def Resolves (o : ℤ) (u : CQUnit) : Prop :=
  u.tagsCode ≠ PreparedMessageTagsCode ∧ u.tagsCode.toInt = o

/-- The message at offset `o` was prepared, and no later entry ends it. -/
def Pending (tranRedoLog : ConsumeQueue) (o : ℤ) : Prop :=
  ∃ i u, tranRedoLog.getMinOffsetInQuque ≤ i ∧ entryAt tranRedoLog i = some u ∧
    u.tagsCode = PreparedMessageTagsCode ∧ u.offset.toInt = o ∧
    ∀ j v, i < j → entryAt tranRedoLog j = some v → ¬ Resolves o v

/-- There is a message at offset `o`. -/
def found (log : MapedFileQueue Bytes) (o : ℤ) : Bool :=
  match lookMessageByOffset log (Int64.ofInt o) with
  | .ok (some _) => true
  | _ => false

/-- The prepared row of the message at offset `o`. -/
def RowFor (log : MapedFileQueue Bytes) (o : ℤ) (row : Row) : Prop :=
  ∃ msgExt group, lookMessageByOffset log (Int64.ofInt o) = .ok (some msgExt) ∧
    msgExt.getProperty PROPERTY_PRODUCER_GROUP = some group ∧
    row = ⟨msgExt.commitLogOffset, msgExt.storeSize, (msgExt.storeTimestamp / 1000).toInt32,
      hashCode group, TransactionPreparedType⟩

/-- The pending messages that are found, in the order of their offsets. -/
structure Sorted (tranRedoLog : ConsumeQueue) (log : MapedFileQueue Bytes) (os : List ℤ) :
    Prop where
  ascending : os.Pairwise (· < ·)
  mem_iff : ∀ o, o ∈ os ↔ Pending tranRedoLog o ∧ found log o

/-- **The table was recreated**: every entry was visited once, and the table has one row for each
pending message that is found. -/
structure Recreated (log : MapedFileQueue Bytes) (s s' : TransactionStateService) : Prop where
  visits : VisitsAll s.tranRedoLog
  rows : ∃ os, Sorted s.tranRedoLog log os ∧
    List.Forall₂ (RowFor log) os (units TSStoreUnitSize s'.tranStateTable)

/-! ### When it is -/

/-- All entries from the min offset on lie in its file. -/
def OneFile (tranRedoLog : ConsumeQueue) : Prop :=
  ∀ i, tranRedoLog.getMinOffsetInQuque ≤ i → (entryAt tranRedoLog i).isSome →
    CQStoreUnitSize * i / tranRedoLog.mapedFileQueue.mapedFileSize =
      CQStoreUnitSize * tranRedoLog.getMinOffsetInQuque / tranRedoLog.mapedFileQueue.mapedFileSize

/-- Looking the message up does not fail, and a message that is found has a producer group. -/
def Readable (log : MapedFileQueue Bytes) (o : ℤ) : Prop :=
  ∃ r, lookMessageByOffset log (Int64.ofInt o) = .ok r ∧
    ∀ msgExt ∈ r, (msgExt.getProperty PROPERTY_PRODUCER_GROUP).isSome

/-- Row `k` of a table lies within a file of the given size, and the file is created when the row
is its first one. -/
def Fits (size k : ℕ) (created : Bool) : Prop :=
  (TSStoreUnitSize ∣ size ∨ TSStoreUnitSize * (k + 1) ≤ size) ∧
    (size ∣ TSStoreUnitSize * k → created = true)

/-- **The condition.** One file has all the entries, and the pending messages can be read and have
room in the table. -/
structure Recreatable (log : MapedFileQueue Bytes) (created : ℤ → Bool)
    (s : TransactionStateService) : Prop where
  oneFile : OneFile s.tranRedoLog
  readable : ∀ o, Pending s.tranRedoLog o → Readable log o
  fits : ∀ os, Sorted s.tranRedoLog log os → ∀ k o, os[k]? = some o →
    Fits s.tranStateTable.mapedFileSize k (created o)

/-! ### Reading a buffer -/

section Scan

variable {cq : ConsumeQueue} {us : List CQUnit} {p i j k : ℕ}

lemma entryAt_isSome_iff (h : WholeQueue cq) : (entryAt cq i).isSome ↔
    ∃ f ∈ cq.mapedFileQueue.mapedFiles, f.fileFromOffset ≤ CQStoreUnitSize * i ∧
      CQStoreUnitSize * i < f.fileFromOffset + f.wrotePostion := by
  rw [Option.isSome_iff_exists]
  constructor
  · rintro ⟨u, hu⟩
    obtain ⟨f, hf, hle, hlt, -⟩ := (unitAt_iff h.chained).mp hu
    exact ⟨f, hf, hle, hlt⟩
  · rintro ⟨f, hf, hle, hlt⟩
    have hwrote := wrote_le h.chained hf
    have hmapped := h.mapped f hf
    have hindex : (CQStoreUnitSize * i - f.fileFromOffset) / CQStoreUnitSize <
        f.mappedByteBuffer.length := by
      rw [Nat.div_lt_iff_lt_mul h.pos, Nat.mul_comm f.mappedByteBuffer.length]
      omega
    exact ⟨_, (unitAt_iff h.chained).mpr ⟨f, hf, hle, hlt, List.getElem?_eq_getElem hindex⟩⟩

/-- The number of the file an offset lies in. -/
lemma div_of_mem {q : MapedFileQueue (List CQUnit)} {f : MapedFile (List CQUnit)} {o : ℕ}
    (hc : Chained q) (hf : f ∈ q.mapedFiles) (hle : f.fileFromOffset ≤ o)
    (hlt : o < f.fileFromOffset + q.mapedFileSize) :
    o / q.mapedFileSize = f.fileFromOffset / q.mapedFileSize := by
  obtain ⟨n, hn⟩ := hc.aligned (extent f) (List.mem_map_of_mem hf)
  change f.fileFromOffset = q.mapedFileSize * n at hn
  rw [hn, Nat.mul_div_cancel_left _ q.size_pos]
  refine Nat.div_eq_of_lt_le ?_ ?_
  · rw [Nat.mul_comm]
    omega
  · rw [Nat.succ_mul, Nat.mul_comm n]
    omega

/-- Two files with the same number are the same. -/
lemma eq_of_fileNumber {f g : MapedFile (List CQUnit)} (h : WholeQueue cq)
    (hf : f ∈ cq.mapedFileQueue.mapedFiles) (hg : g ∈ cq.mapedFileQueue.mapedFiles)
    (heq : g.fileFromOffset / cq.mapedFileQueue.mapedFileSize =
      f.fileFromOffset / cq.mapedFileQueue.mapedFileSize) : g = f := by
  obtain ⟨first, rest, hfiles⟩ := List.exists_cons_of_ne_nil (List.ne_nil_of_mem hf)
  obtain ⟨m, hm⟩ := h.chained.aligned (extent f) (List.mem_map_of_mem hf)
  obtain ⟨n, hn⟩ := h.chained.aligned (extent g) (List.mem_map_of_mem hg)
  change f.fileFromOffset = cq.mapedFileQueue.mapedFileSize * m at hm
  change g.fileFromOffset = cq.mapedFileQueue.mapedFileSize * n at hn
  rw [hm, hn, Nat.mul_div_cancel_left _ cq.mapedFileQueue.size_pos,
    Nat.mul_div_cancel_left _ cq.mapedFileQueue.size_pos] at heq
  exact eq_of_start h hfiles hf hg (by rw [hm, hn, heq])

/-- A buffer holds the entries of one file. -/
lemma entryAt_of_buffer (h : WholeQueue cq) (hb : getIndexBuffer cq p = some us)
    (hk : k < us.length) : (entryAt cq (p + k)).isSome ∧
      CQStoreUnitSize * (p + k) / cq.mapedFileQueue.mapedFileSize =
        CQStoreUnitSize * p / cq.mapedFileQueue.mapedFileSize := by
  obtain ⟨f, hf, -, hle, hlt, hend⟩ := getIndexBuffer_cases h hb
  have hwrote := wrote_le h.chained hf
  have hk' : CQStoreUnitSize * (p + k) < CQStoreUnitSize * (p + us.length) :=
    Nat.mul_lt_mul_of_pos_left (by omega) h.pos
  have hpk : CQStoreUnitSize * p ≤ CQStoreUnitSize * (p + k) := Nat.mul_le_mul_left _ (by omega)
  refine ⟨(entryAt_isSome_iff h).mpr ⟨f, hf, by omega, by omega⟩, ?_⟩
  rw [div_of_mem h.chained hf (by omega) (by omega), div_of_mem h.chained hf hle (by omega)]

/-- The entries of the file behind `p` are in the buffer. -/
lemma lt_of_sameFile (h : WholeQueue cq) (hb : getIndexBuffer cq p = some us)
    (hi : (entryAt cq i).isSome)
    (hfile : CQStoreUnitSize * i / cq.mapedFileQueue.mapedFileSize =
      CQStoreUnitSize * p / cq.mapedFileQueue.mapedFileSize) : i < p + us.length := by
  obtain ⟨f, hf, -, hle, hlt, hend⟩ := getIndexBuffer_cases h hb
  obtain ⟨g, hg, hgle, hglt⟩ := (entryAt_isSome_iff h).mp hi
  have hwrote := wrote_le h.chained hf
  have hgwrote := wrote_le h.chained hg
  rw [div_of_mem h.chained hg hgle (by omega), div_of_mem h.chained hf hle (by omega)] at hfile
  obtain rfl := eq_of_fileNumber h hf hg hfile
  rw [← hend] at hglt
  exact Nat.lt_of_mul_lt_mul_left hglt

lemma entryAt_eq (h : RedoLog cq) {first : MapedFile (List CQUnit)}
    {rest : List (MapedFile (List CQUnit))} {m : ℕ}
    (hfiles : cq.mapedFileQueue.mapedFiles = first :: rest)
    (hm : first.fileFromOffset = CQStoreUnitSize * m) (j : ℕ) :
    entryAt cq (m + j) = (entries cq)[j]? := by
  rw [ConsumeQueue.entries, ← findUnit_eq h.whole h.available hfiles hm, entryAt, unitAt, findUnit]
  refine Option.bind_congr fun f hf => ?_
  have havail := h.available f (mem_of_findMapedFileByOffset hf)
  simp only [havail, and_true]

/-- Between two entries there are no gaps. -/
lemma entryAt_between (h : RedoLog cq) (hi : (entryAt cq i).isSome) (hk : (entryAt cq k).isSome)
    (hij : i ≤ j) (hjk : j ≤ k) : (entryAt cq j).isSome := by
  obtain ⟨f, hf, hle, -⟩ := (entryAt_isSome_iff h.whole).mp hi
  obtain ⟨first, rest, hfiles⟩ := List.exists_cons_of_ne_nil (List.ne_nil_of_mem hf)
  obtain ⟨m, hm⟩ := h.whole.dvd.trans (h.whole.chained.aligned (extent first)
    (List.mem_map_of_mem (by simp [hfiles])))
  change first.fileFromOffset = CQStoreUnitSize * m at hm
  obtain ⟨n, hn⟩ := List.getElem?_of_mem hf
  have hstart := start_of_index h.whole.chained hfiles hn
  have hmi : m ≤ i := by
    refine Nat.le_of_mul_le_mul_left (c := CQStoreUnitSize) ?_ h.whole.pos
    omega
  obtain ⟨j', rfl⟩ := Nat.exists_eq_add_of_le (hmi.trans hij)
  obtain ⟨k', rfl⟩ := Nat.exists_eq_add_of_le (hmi.trans (hij.trans hjk))
  rw [entryAt_eq h hfiles hm, isSome_getElem?] at hk ⊢
  omega

lemma lt_max_of_entryAt (h : WholeQueue cq) (hi : (entryAt cq i).isSome) :
    i < cq.getMaxOffsetInQuque := by
  obtain ⟨u, hu⟩ := Option.isSome_iff_exists.mp hi
  exact lt_of_entryAt h hu

/-! ### The scan -/

/-- **The scan ends.** Every buffer moves it on. -/
lemma visits_isSome (h : WholeQueue cq) {fuel : ℕ}
    (hfuel : cq.getMaxOffsetInQuque < p + fuel) (hpos : 0 < fuel) :
    ∃ is, visits cq fuel p = some is := by
  induction fuel generalizing p with
  | zero => omega
  | succ fuel ih =>
    rw [visits]
    cases hb : getIndexBuffer cq p with
    | none => exact ⟨[], rfl⟩
    | some us =>
      have hlen := length_getIndexBuffer_pos h hb
      have hlt := lt_max_of_entryAt h (entryAt_of_buffer h hb hlen).1
      have hmul : us.length ≤ CQStoreUnitSize * us.length := Nat.le_mul_of_pos_left _ h.pos
      obtain ⟨is, his⟩ := ih (p := p + CQStoreUnitSize * us.length) (by omega) (by omega)
      refine ⟨List.range' p us.length ++ is, ?_⟩
      simp only [his, Option.map_some]

/-- The scan never goes back. -/
lemma le_of_mem_visits {fuel : ℕ} {is : List ℕ} (hv : visits cq fuel p = some is) (hi : i ∈ is) :
    p ≤ i := by
  induction fuel generalizing p is with
  | zero => exact absurd hv (by simp [visits])
  | succ fuel ih =>
    rw [visits] at hv
    cases hb : getIndexBuffer cq p with
    | none =>
      simp only [hb, Option.some.injEq] at hv
      rw [← hv] at hi
      exact absurd hi List.not_mem_nil
    | some us =>
      simp only [hb] at hv
      obtain ⟨is', his', rfl⟩ := Option.map_eq_some_iff.mp hv
      rcases List.mem_append.mp hi with hi | hi
      · exact (List.mem_range'_1.mp hi).1
      · have := ih his' hi
        omega

lemma filterMap_range' {α : Type} {g : ℕ → Option α} {l : List α}
    (hg : ∀ k < l.length, g (p + k) = l[k]?) : (List.range' p l.length).filterMap g = l := by
  induction l generalizing p with
  | nil => rfl
  | cons a l ih =>
    have hhead : g p = some a := hg 0 (by simp)
    rw [List.length_cons, List.range'_succ, List.filterMap_cons, hhead]
    refine congrArg (a :: ·) (ih fun k hk => ?_)
    have hnext := hg (k + 1) (by simpa using hk)
    rwa [List.getElem?_cons_succ, show p + (k + 1) = p + 1 + k by omega] at hnext

/-- What the scan collects is what the entries it visits leave. -/
lemma scanRedoLog_eq (h : WholeQueue cq) (fuel : ℕ) (m : TreeMap ℤ Unit) :
    scanRedoLog cq fuel p m =
      (visits cq fuel p).map fun is => (is.filterMap (entryAt cq)).foldl redo m := by
  induction fuel generalizing p m with
  | zero => rfl
  | succ fuel ih =>
    rw [scanRedoLog, visits]
    cases hb : getIndexBuffer cq p with
    | none => rfl
    | some us =>
      have hus : (List.range' p us.length).filterMap (entryAt cq) = us :=
        filterMap_range' fun k hk => entryAt_of_getIndexBuffer h hb hk
      simp only [ih, Option.map_map]
      refine congrArg (Option.map · _) (funext fun is => ?_)
      simp only [Function.comp_apply, List.filterMap_append, List.foldl_append, hus]

/-- In a log whose entries lie in one file, the scan ends behind the first buffer. -/
lemma visited_of_oneFile (h : RedoLog cq) (hone : OneFile cq) :
    ∃ us : List CQUnit, visited cq = some (List.range' cq.getMinOffsetInQuque us.length) ∧
      ∀ k, entryAt cq (cq.getMinOffsetInQuque + k) = us[k]? := by
  rw [visited, visits]
  cases hb : getIndexBuffer cq cq.getMinOffsetInQuque with
  | none =>
    refine ⟨[], rfl, fun k => ?_⟩
    rw [List.getElem?_nil, ← Option.not_isSome_iff_eq_none]
    intro hsome
    -- the file of the entry has the min offset too
    obtain ⟨f, hf, hle, hlt⟩ := (entryAt_isSome_iff h.whole).mp hsome
    have hfile := hone _ (Nat.le_add_right _ k) hsome
    have hwrote := wrote_le h.whole.chained hf
    rw [div_of_mem h.whole.chained hf hle (by omega)] at hfile
    obtain ⟨n, hn⟩ := h.whole.chained.aligned (extent f) (List.mem_map_of_mem hf)
    change f.fileFromOffset = _ at hn
    have hfrom : f.fileFromOffset ≤ CQStoreUnitSize * cq.getMinOffsetInQuque := by
      rw [hn, Nat.mul_div_cancel_left _ cq.mapedFileQueue.size_pos] at hfile
      rw [hn, hfile]
      exact Nat.mul_div_le _ _
    have hmin : CQStoreUnitSize * cq.getMinOffsetInQuque ≤
        CQStoreUnitSize * (cq.getMinOffsetInQuque + k) :=
      Nat.mul_le_mul_left _ (Nat.le_add_right _ k)
    have hentry := (entryAt_isSome_iff h.whole).mpr ⟨f, hf, hfrom, by omega⟩
    obtain ⟨f, hf, hle, hlt⟩ := (entryAt_isSome_iff h.whole).mp hentry
    obtain ⟨us, hus⟩ :=
      getIndexBuffer_isSome h.whole h.dvd_min le_rfl hf (h.available f hf) hle hlt
    rw [hb] at hus
    cases hus
  | some us =>
    have hlen := length_getIndexBuffer_pos h.whole hb
    have hlt := lt_max_of_entryAt h.whole (entryAt_of_buffer h.whole hb hlen).1
    have hbehind : ∀ k, us.length ≤ k → entryAt cq (cq.getMinOffsetInQuque + k) = none := by
      intro k hk
      rw [← Option.not_isSome_iff_eq_none]
      intro hsome
      have := lt_of_sameFile h.whole hb hsome (hone _ (Nat.le_add_right _ k) hsome)
      omega
    refine ⟨us, ?_, fun k => ?_⟩
    · -- there is no entry at the number the scan goes on with
      have hnext : getIndexBuffer cq
          (cq.getMinOffsetInQuque + CQStoreUnitSize * us.length) = none := by
        cases hb' : getIndexBuffer cq (cq.getMinOffsetInQuque + CQStoreUnitSize * us.length) with
        | none => rfl
        | some us' =>
          have hsome := (entryAt_of_buffer h.whole hb'
            (length_getIndexBuffer_pos h.whole hb')).1
          rw [Nat.add_zero, hbehind _ (Nat.le_mul_of_pos_left _ h.whole.pos)] at hsome
          cases hsome
      obtain ⟨fuel, hfuel⟩ :=
        Nat.exists_eq_succ_of_ne_zero (show cq.getMaxOffsetInQuque ≠ 0 by omega)
      simp only [hfuel, visits, hnext, Option.map_some, List.append_nil]
    · by_cases hk : k < us.length
      · exact entryAt_of_getIndexBuffer h.whole hb hk
      · rw [hbehind k (by omega), List.getElem?_eq_none_iff.mpr (by omega)]

/-- **What the scan visits.** It sees every entry once if and only if one file holds them. -/
lemma visitsAll_iff (h : RedoLog cq) : VisitsAll cq ↔ OneFile cq := by
  constructor
  · rintro ⟨is, his, hcount⟩ i hi hsome
    by_contra hfile
    rw [visited, visits] at his
    cases hb : getIndexBuffer cq cq.getMinOffsetInQuque with
    | none =>
      simp only [hb, Option.some.injEq] at his
      have hi' := hcount i
      rw [if_pos ⟨hi, hsome⟩, ← his, List.count_nil] at hi'
      exact absurd hi' (by decide)
    | some us =>
      simp only [hb] at his
      obtain ⟨rest, hrest, rfl⟩ := Option.map_eq_some_iff.mp his
      have hlen := length_getIndexBuffer_pos h.whole hb
      -- entry `i` lies in a later file, so the buffer is followed by an entry
      have hbehind : cq.getMinOffsetInQuque + us.length ≤ i := by
        by_contra hlt
        obtain ⟨k, rfl⟩ := Nat.exists_eq_add_of_le hi
        exact hfile (entryAt_of_buffer h.whole hb (by omega)).2
      have hfirst := (entryAt_of_buffer h.whole hb hlen).1
      have hskipped := entryAt_between h hfirst hsome (by omega) hbehind
      have hone := hcount (cq.getMinOffsetInQuque + us.length)
      rw [if_pos ⟨by omega, hskipped⟩, List.count_append] at hone
      have hfar : cq.getMinOffsetInQuque + us.length <
          cq.getMinOffsetInQuque + CQStoreUnitSize * us.length := by
        rw [CQStoreUnitSize]
        omega
      have hin : (List.range' cq.getMinOffsetInQuque us.length).count
          (cq.getMinOffsetInQuque + us.length) = 0 := by
        refine List.count_eq_zero.mpr fun hmem => ?_
        have := (List.mem_range'_1.mp hmem).2
        omega
      have hout : rest.count (cq.getMinOffsetInQuque + us.length) = 0 := by
        refine List.count_eq_zero.mpr fun hmem => ?_
        have := le_of_mem_visits hrest hmem
        omega
      omega
  · intro hone
    obtain ⟨us, hus, hget⟩ := visited_of_oneFile h hone
    have hiff : ∀ k, (entryAt cq (cq.getMinOffsetInQuque + k)).isSome ↔ k < us.length := by
      intro k
      rw [hget, isSome_getElem?]
    refine ⟨_, hus, fun i => ?_⟩
    split_ifs with hi
    · obtain ⟨k, rfl⟩ := Nat.exists_eq_add_of_le hi.1
      have hk := (hiff k).mp hi.2
      exact List.count_eq_one_of_mem List.nodup_range' (List.mem_range'_1.mpr (by omega))
    · refine List.count_eq_zero.mpr fun hmem => hi ?_
      obtain ⟨hle, hlt⟩ := List.mem_range'_1.mp hmem
      obtain ⟨k, rfl⟩ := Nat.exists_eq_add_of_le hle
      exact ⟨hle, (hiff k).mpr (by omega)⟩

/-! ### The pending messages -/

lemma mem_redo {m : TreeMap ℤ Unit} {u : CQUnit} {o : ℤ} : o ∈ redo m u ↔
    u.tagsCode = PreparedMessageTagsCode ∧ u.offset.toInt = o ∨ o ∈ m ∧ ¬ Resolves o u := by
  rw [redo, Resolves]
  by_cases hu : u.tagsCode = PreparedMessageTagsCode
  · rw [if_pos hu.symm, TreeMap.mem_put]
    simp only [hu, ne_eq, not_true_eq_false, false_and, not_false_eq_true, and_true, true_and]
    rw [eq_comm]
  · rw [if_neg fun h => hu h.symm, TreeMap.mem_remove]
    simp only [hu, ne_eq, not_false_eq_true, false_and, true_and, false_or]
    rw [and_comm, eq_comm]

/-- The offset of a prepared message is put, and no later entry takes it away. -/
lemma mem_foldl_redo {m : TreeMap ℤ Unit} {o : ℤ} : o ∈ us.foldl redo m ↔
    (∃ (k : ℕ) (u : CQUnit), us[k]? = some u ∧ u.tagsCode = PreparedMessageTagsCode ∧
      u.offset.toInt = o ∧ ∀ (l : ℕ) v, k < l → us[l]? = some v → ¬ Resolves o v) ∨
    o ∈ m ∧ ∀ v ∈ us, ¬ Resolves o v := by
  induction us generalizing m with
  | nil => simp
  | cons u us ih =>
    rw [List.foldl_cons, ih, mem_redo]
    constructor
    · rintro (⟨k, v, hk, hprep, hoff, hlater⟩ | ⟨⟨hprep, hoff⟩ | ⟨hm, hu⟩, hlater⟩)
      · refine .inl ⟨k + 1, v, by simpa using hk, hprep, hoff, fun l v' hl hv' => ?_⟩
        obtain ⟨l, rfl⟩ := Nat.exists_eq_succ_of_ne_zero (show l ≠ 0 by omega)
        exact hlater l v' (by omega) (by simpa using hv')
      · refine .inl ⟨0, u, rfl, hprep, hoff, fun l v hl hv => ?_⟩
        obtain ⟨l, rfl⟩ := Nat.exists_eq_succ_of_ne_zero (show l ≠ 0 by omega)
        exact hlater v (List.mem_of_getElem? (i := l) (by simpa using hv))
      · refine .inr ⟨hm, fun v hv => ?_⟩
        rcases List.mem_cons.mp hv with rfl | hv
        · exact hu
        · exact hlater v hv
    · rintro (⟨_ | k, v, hk, hprep, hoff, hlater⟩ | ⟨hm, hlater⟩)
      · obtain rfl : u = v := by simpa using hk
        refine .inr ⟨.inl ⟨hprep, hoff⟩, fun v hv => ?_⟩
        obtain ⟨l, hl⟩ := List.getElem?_of_mem hv
        exact hlater (l + 1) v (by omega) (by simpa using hl)
      · refine .inl ⟨k, v, by simpa using hk, hprep, hoff, fun l v' hl hv' => ?_⟩
        exact hlater (l + 1) v' (by omega) (by simpa using hv')
      · exact .inr ⟨.inr ⟨hm, hlater u List.mem_cons_self⟩,
          fun v hv => hlater v (List.mem_cons_of_mem u hv)⟩

/-- When it sees every entry, the scan ends with the offsets of the pending messages. -/
lemma scan_of_oneFile (h : RedoLog cq) (hone : OneFile cq) :
    ∃ m, scanRedoLog cq (cq.getMaxOffsetInQuque + 1) cq.getMinOffsetInQuque ∅ = some m ∧
      ∀ o, o ∈ m ↔ Pending cq o := by
  obtain ⟨us, hus, hget⟩ := visited_of_oneFile h hone
  refine ⟨_, by rw [scanRedoLog_eq h.whole, ← visited, hus, Option.map_some], fun o => ?_⟩
  rw [filterMap_range' fun k _ => hget k, mem_foldl_redo, Pending]
  constructor
  · rintro (⟨k, u, hk, hprep, hoff, hlater⟩ | ⟨hnone, -⟩)
    · refine ⟨_, u, Nat.le_add_right _ k, (hget k).trans hk, hprep, hoff, fun j v hj hv => ?_⟩
      obtain ⟨l, rfl⟩ :=
        Nat.exists_eq_add_of_le (show cq.getMinOffsetInQuque ≤ j by omega)
      exact hlater l v (by omega) ((hget l).symm.trans hv)
    · exact absurd hnone (TreeMap.not_mem_empty o)
  · rintro ⟨i, u, hi, hu, hprep, hoff, hlater⟩
    obtain ⟨k, rfl⟩ := Nat.exists_eq_add_of_le hi
    refine .inl ⟨k, u, (hget k).symm.trans hu, hprep, hoff, fun l v hl hv => ?_⟩
    exact hlater _ v (by omega) ((hget l).trans hv)

end Scan

/-! ### The rows -/

section Rows

variable {log : MapedFileQueue Bytes} {created : ℤ → Bool} {size : ℕ} {rows : List Row} {q : Table}
  {f : MapedFile (List Row)}

/-- The last file of a table that holds `count` rows, behind full files. -/
structure LastFile (size count : ℕ) (f : MapedFile (List Row)) : Prop where
  count_eq : ∃ a, TSStoreUnitSize * count = a * size + f.wrotePostion ∧
    (a = 0 ∨ TSStoreUnitSize ∣ size)
  wrote_le : f.wrotePostion ≤ size
  dvd : TSStoreUnitSize ∣ f.wrotePostion
  mapped : f.mappedByteBuffer.length = size / TSStoreUnitSize

/-- A table of the given rows, appended from the first one on. A file without a row is one that
has no room for any. -/
structure Appended (size : ℕ) (rows : List Row) (q : Table) : Prop where
  size_eq : q.mapedFileSize = size
  units : units TSStoreUnitSize q = rows
  last : q.mapedFiles = [] ∧ rows = [] ∨
    ∃ f, q.mapedFiles.getLast? = some f ∧ LastFile size rows.length f ∧
      (f.wrotePostion = 0 → size < TSStoreUnitSize)

lemma Appended.nil (hpos : 0 < size) : Appended size [] (Chain.empty size hpos) :=
  ⟨rfl, rfl, .inl ⟨rfl, rfl⟩⟩

lemma LastFile.room_iff (h : LastFile size rows.length f) (hlt : f.wrotePostion < size) :
    (TSStoreUnitSize ∣ size ∨ TSStoreUnitSize * (rows.length + 1) ≤ size) ↔
      f.wrotePostion + TSStoreUnitSize ≤ size := by
  obtain ⟨a, ha, hcase⟩ := h.count_eq
  obtain ⟨k, hk⟩ := h.dvd
  constructor
  · rintro (⟨n, hn⟩ | hle)
    · rw [hk, hn] at hlt ⊢
      have := Nat.lt_of_mul_lt_mul_left hlt
      rw [← Nat.mul_succ]
      exact Nat.mul_le_mul_left _ this
    · rw [Nat.mul_succ, ha] at hle
      omega
  · intro hle
    rcases hcase with rfl | hd
    · refine .inr ?_
      rw [Nat.mul_succ, ha]
      omega
    · exact .inl hd

/-- A file with room for a row takes it. -/
lemma LastFile.append (h : LastFile size rows.length f) (hlast : q.mapedFiles.getLast? = some f)
    (hsize : q.mapedFileSize = size) (hunits : Units.units TSStoreUnitSize q = rows)
    (hroom : f.wrotePostion + TSStoreUnitSize ≤ size) (row : Row) :
    ∃ f', appendUnit TSStoreUnitSize size row f = some f' ∧
      Appended size (rows ++ [row]) (q.setLast f') := by
  obtain ⟨k, hk⟩ := h.dvd
  have hlt : f.wrotePostion < TSStoreUnitSize * (size / TSStoreUnitSize) := by
    have hle : k + 1 ≤ size / TSStoreUnitSize := by
      rw [Nat.le_div_iff_mul_le (by decide), Nat.mul_comm, Nat.mul_succ, ← hk]
      exact hroom
    have hmul := Nat.mul_le_mul_left TSStoreUnitSize hle
    rw [Nat.mul_succ, ← hk] at hmul
    exact Nat.lt_of_lt_of_le (Nat.lt_add_of_pos_right (by decide)) hmul
  obtain ⟨f', happ, hus, hf'⟩ := @appendUnit_some Row TSStoreUnitSize f
    (TSStoreUnitSize * (size / TSStoreUnitSize)) (by decide) (by rw [h.mapped]) h.dvd hlt row
  refine ⟨f', appendUnit_mono happ (Nat.mul_div_le _ _), hsize, ?_, .inr ⟨f', ?_, ?_, ?_⟩⟩
  · rw [units_setLast hlast hus, hunits]
  · simp [MapedFileQueue.setLast]
  · obtain ⟨a, ha, hcase⟩ := h.count_eq
    rw [hf']
    refine ⟨⟨a, ?_, hcase⟩, hroom, Nat.dvd_add h.dvd (Nat.dvd_refl _), ?_⟩
    · rw [List.length_append, List.length_singleton, Nat.mul_succ, ha, Nat.add_assoc]
    · rw [List.length_set, h.mapped]
  · rw [hf']
    intro hzero
    change f.wrotePostion + TSStoreUnitSize = 0 at hzero
    rw [TSStoreUnitSize] at hzero
    omega

/-- What becomes of a row once there is a file for it. -/
lemma LastFile.attempt (h : LastFile size rows.length f) (hlast : q.mapedFiles.getLast? = some f)
    (hsize : q.mapedFileSize = size) (hunits : Units.units TSStoreUnitSize q = rows) (row : Row) :
    (f.wrotePostion + TSStoreUnitSize ≤ size → Appended size (rows ++ [row])
      (match appendUnit TSStoreUnitSize q.mapedFileSize row f with
        | none => (q, false)
        | some f => (q.setLast f, true)).1) ∧
    (¬ f.wrotePostion + TSStoreUnitSize ≤ size → Appended size rows
      (match appendUnit TSStoreUnitSize q.mapedFileSize row f with
        | none => (q, false)
        | some f => (q.setLast f, true)).1) := by
  constructor
  · intro hroom
    obtain ⟨f', happ, hheld⟩ := h.append hlast hsize hunits hroom row
    rw [hsize, happ]
    exact hheld
  · intro hroom
    have hnone : appendUnit TSStoreUnitSize q.mapedFileSize row f = none := by
      rw [hsize]
      exact if_neg hroom
    rw [hnone]
    exact ⟨hsize, hunits, .inr ⟨f, hlast, h, fun hzero => by omega⟩⟩

/-- A new file behind full ones. -/
lemma Appended.newFile (h : Appended size rows q) {createOffset : ℕ}
    (hfull : ∀ last ∈ q.mapedFiles.getLast?, last.wrotePostion = size) {file : MapedFile (List Row)}
    (hfile : file = { fileFromOffset := createOffset, mappedByteBuffer := newRows size,
                      firstCreateInQueue := q.mapedFiles.isEmpty }) :
    LastFile size rows.length file ∧
      Units.units TSStoreUnitSize { q with mapedFiles := q.mapedFiles ++ [file] } = rows ∧
      size ∣ TSStoreUnitSize * rows.length := by
  have hcount : ∃ a, TSStoreUnitSize * rows.length = a * size ∧
      (a = 0 ∨ TSStoreUnitSize ∣ size) := by
    rcases h.last with ⟨-, rfl⟩ | ⟨f, hf, hlast, -⟩
    · exact ⟨0, by simp, .inl rfl⟩
    · obtain ⟨a, ha, -⟩ := hlast.count_eq
      have hwrote := hfull f hf
      refine ⟨a + 1, ?_, .inr (hwrote ▸ hlast.dvd)⟩
      rw [ha, hwrote, Nat.succ_mul]
  obtain ⟨a, ha, hcase⟩ := hcount
  subst hfile
  refine ⟨⟨⟨a, by rw [ha]; rfl, hcase⟩, Nat.zero_le _, Nat.dvd_zero _, ?_⟩, ?_,
    ⟨a, by rw [ha, Nat.mul_comm]⟩⟩
  · rw [newRows, List.length_replicate]
  · rw [Units.units, List.flatMap_append, ← Units.units, h.units]
    simp [unitsOf]

/-- **A row is appended** if and only if it fits; else the table keeps its rows. -/
lemma Appended.append (h : Appended size rows q) (hpos : 0 < size) (created : Bool)
    (clOffset : Int64) (sz timestamp groupHashCode : Int32) :
    (Fits size rows.length created →
      Appended size (rows ++ [⟨clOffset, sz, timestamp, groupHashCode, TransactionPreparedType⟩])
        (appendPreparedTransaction created clOffset sz timestamp groupHashCode q).1) ∧
    (¬ Fits size rows.length created → Appended size rows
        (appendPreparedTransaction created clOffset sz timestamp groupHashCode q).1) := by
  unfold appendPreparedTransaction MapedFileQueue.getLastMapedFile
  cases hcreate : q.createOffset 0 with
  | none =>
    -- the last file is not full
    cases hlast : q.mapedFiles.getLast? with
    | none => simp [MapedFileQueue.createOffset, hlast] at hcreate
    | some f =>
      have hnotfull : f.wrotePostion ≠ size := by
        intro heq
        simp [MapedFileQueue.createOffset, hlast, MapedFile.isFull, heq, h.size_eq] at hcreate
      rcases h.last with ⟨hnil, -⟩ | ⟨f', hf', hfile, hzero⟩
      · rw [hnil] at hlast
        cases hlast
      · obtain rfl : f' = f := Option.some.inj (hf'.symm.trans hlast)
        have hlt := lt_of_le_of_ne hfile.wrote_le hnotfull
        have hiff : Fits size rows.length created ↔ f'.wrotePostion + TSStoreUnitSize ≤ size := by
          rw [Fits, hfile.room_iff hlt, and_iff_left_iff_imp]
          intro hroom hdvd
          obtain ⟨a, ha, -⟩ := hfile.count_eq
          rw [ha, Nat.dvd_add_right (Nat.dvd_mul_left _ _)] at hdvd
          have := hzero (Nat.eq_zero_of_dvd_of_lt hdvd hlt)
          omega
        rw [hiff]
        exact hfile.attempt hlast h.size_eq h.units _
  | some createOffset =>
    have hfull : ∀ last ∈ q.mapedFiles.getLast?, last.wrotePostion = size := by
      intro last hlast
      simp only [MapedFileQueue.createOffset, Option.mem_def.mp hlast, MapedFile.isFull,
        decide_eq_true_eq, h.size_eq] at hcreate
      split at hcreate
      · assumption
      · cases hcreate
    obtain ⟨hfile, hunits, hdvd⟩ := @Appended.newFile size rows q h createOffset hfull _ rfl
    cases created with
    | false =>
      have hnot : ¬ Fits size rows.length false := fun hfits => Bool.false_ne_true (hfits.2 hdvd)
      exact ⟨fun hfits => absurd hfits hnot, fun _ => h⟩
    | true =>
      have hiff : Fits size rows.length true ↔ 0 + TSStoreUnitSize ≤ size := by
        rw [Fits, hfile.room_iff hpos, and_iff_left_iff_imp]
        exact fun _ _ => rfl
      rw [hiff]
      simp only [if_true, h.size_eq]
      have := hfile.attempt (q := { q with mapedFiles := q.mapedFiles ++ [_] }) (by simp) h.size_eq
        hunits ⟨clOffset, sz, timestamp, groupHashCode, TransactionPreparedType⟩
      simp only [h.size_eq] at this
      exact this

lemma found_iff {o : ℤ} :
    found log o ↔ ∃ msgExt, lookMessageByOffset log (Int64.ofInt o) = .ok (some msgExt) := by
  unfold found
  split
  · next msgExt heq => exact ⟨fun _ => ⟨msgExt, heq⟩, fun _ => rfl⟩
  · next hne =>
    refine ⟨fun h => absurd h Bool.false_ne_true, ?_⟩
    rintro ⟨msgExt, hm⟩
    exact absurd hm (hne msgExt)

lemma RowFor.eq {o : ℤ} {row row' : Row} (h : RowFor log o row) (h' : RowFor log o row') :
    row = row' := by
  obtain ⟨msgExt, group, hlook, hgroup, rfl⟩ := h
  obtain ⟨msgExt', group', hlook', hgroup', rfl⟩ := h'
  obtain rfl : msgExt = msgExt' := by simpa [hlook] using hlook'
  obtain rfl : group = group' := by simpa [hgroup] using hgroup'
  rfl

/-- There are never more rows than messages that are found. -/
lemma appendRows_length (hpos : 0 < size) {os : List ℤ} {c : Int64} {t : Table × Int64}
    (h : Appended size rows q) (ht : appendRows log created os (q, c) = some t) :
    (units TSStoreUnitSize t.1).length ≤ rows.length + (os.filter (found log)).length := by
  induction os generalizing rows q c with
  | nil =>
    obtain rfl : (q, c) = t := Option.some.inj ht
    exact (congrArg List.length h.units).le
  | cons o os ih =>
    rw [appendRows] at ht
    cases hlook : lookMessageByOffset log (Int64.ofInt o) with
    | error e => simp [hlook] at ht
    | ok r =>
      cases r with
      | none =>
        have hnot : ¬ found log o := by simp [found, hlook]
        rw [List.filter_cons_of_neg hnot]
        simp only [hlook] at ht
        exact ih h ht
      | some msgExt =>
        have hfound : found log o := by simp [found, hlook]
        simp only [hlook] at ht
        obtain ⟨group, -, ht⟩ := Option.bind_eq_some_iff.mp ht
        obtain ⟨hfits, hnot⟩ := h.append hpos (created o) msgExt.commitLogOffset msgExt.storeSize
          (msgExt.storeTimestamp / 1000).toInt32 (hashCode group)
        rw [List.filter_cons_of_pos hfound, List.length_cons]
        by_cases hroom : Fits size rows.length (created o)
        · have := ih (hfits hroom) ht
          rw [List.length_append, List.length_singleton] at this
          omega
        · have := ih (hnot hroom) ht
          omega

/-- **The rows are appended** for all messages that are found, if and only if these can be read
and have room. -/
lemma appendRows_iff (hpos : 0 < size) {os : List ℤ} {c : Int64} (h : Appended size rows q) :
    (∃ t new, appendRows log created os (q, c) = some t ∧
      units TSStoreUnitSize t.1 = rows ++ new ∧
      List.Forall₂ (RowFor log) (os.filter (found log)) new) ↔
    (∀ o ∈ os, Readable log o) ∧
      ∀ k o, (os.filter (found log))[k]? = some o → Fits size (rows.length + k) (created o) := by
  induction os generalizing rows q c with
  | nil =>
    simp only [appendRows, List.filter_nil, List.forall₂_nil_left_iff, List.not_mem_nil,
      List.getElem?_nil]
    exact ⟨fun _ => ⟨fun _ h => h.elim, fun _ _ h => absurd h (Option.some_ne_none _).symm⟩,
      fun _ => ⟨(q, c), [], rfl, by rw [h.units, List.append_nil], rfl⟩⟩
  | cons o os ih =>
    rw [appendRows]
    simp only [List.forall_mem_cons]
    cases hlook : lookMessageByOffset log (Int64.ofInt o) with
    | error e =>
      have hnot : ¬ Readable log o := by
        rintro ⟨r, hr, -⟩
        rw [hlook] at hr
        cases hr
      constructor
      · rintro ⟨t, new, ht, -⟩
        cases ht
      · rintro ⟨⟨hread, -⟩, -⟩
        exact absurd hread hnot
    | ok r =>
      cases r with
      | none =>
        have hnot : ¬ found log o := by simp [found, hlook]
        have hread : Readable log o := ⟨none, hlook, fun _ hm => absurd hm (Option.not_mem_none _)⟩
        rw [List.filter_cons_of_neg hnot, ih h]
        simp only [hread, true_and]
      | some msgExt =>
        have hfound : found log o := by simp [found, hlook]
        rw [List.filter_cons_of_pos hfound]
        cases hgroup : msgExt.getProperty PROPERTY_PRODUCER_GROUP with
        | none =>
          have hnot : ¬ Readable log o := by
            rintro ⟨r, hr, hall⟩
            obtain rfl : some msgExt = r := by simpa [hlook] using hr
            have := hall msgExt rfl
            rw [hgroup] at this
            cases this
          constructor
          · rintro ⟨t, new, ht, -⟩
            simp [hgroup] at ht
          · rintro ⟨⟨hread, -⟩, -⟩
            exact absurd hread hnot
        | some group =>
          have hread : Readable log o := by
            refine ⟨some msgExt, hlook, fun m hm => ?_⟩
            obtain rfl := Option.mem_some_iff.mp hm
            rw [hgroup]
            rfl
          have hrow : RowFor log o ⟨msgExt.commitLogOffset, msgExt.storeSize,
              (msgExt.storeTimestamp / 1000).toInt32, hashCode group, TransactionPreparedType⟩ :=
            ⟨msgExt, group, hlook, hgroup, rfl⟩
          obtain ⟨hfits, hnot⟩ := h.append hpos (created o) msgExt.commitLogOffset
            msgExt.storeSize (msgExt.storeTimestamp / 1000).toInt32 (hashCode group)
          simp only [hgroup, hread, true_and, Option.bind_eq_bind, Option.bind_some]
          by_cases hroom : Fits size rows.length (created o)
          · have hiff := ih (c := c + 1) (hfits hroom)
            constructor
            · rintro ⟨t, new, ht, hunits, hnew⟩
              cases hnew with
              | cons hhead hrest =>
                obtain rfl := hhead.eq hrow
                obtain ⟨hreads, hall⟩ := hiff.mp ⟨t, _, ht, by rw [hunits]; simp, hrest⟩
                refine ⟨hreads, fun k o' hk => ?_⟩
                cases k with
                | zero =>
                  obtain rfl : o = o' := by simpa using hk
                  exact hroom
                | succ k =>
                  have hfit := hall k o' (by simpa using hk)
                  rwa [List.length_append, List.length_singleton, Nat.add_assoc,
                    Nat.add_comm 1 k] at hfit
            · rintro ⟨hreads, hall⟩
              obtain ⟨t, new, ht, hunits, hnew⟩ := hiff.mpr ⟨hreads, fun k o' hk => by
                rw [List.length_append, List.length_singleton, Nat.add_assoc, Nat.add_comm 1 k]
                exact hall (k + 1) o' (by simpa using hk)⟩
              exact ⟨t, _ :: new, ht, by rw [hunits]; simp, .cons hrow hnew⟩
          · constructor
            · rintro ⟨t, new, ht, hunits, hnew⟩
              have hle := appendRows_length hpos (hnot hroom) ht
              have hlen := hnew.length_eq
              rw [hunits, List.length_append] at hle
              rw [List.length_cons] at hlen
              omega
            · rintro ⟨-, hall⟩
              exact absurd (hall 0 o rfl) hroom

end Rows

/-! ### The table that is recreated -/

lemma Sorted.eq {cq : ConsumeQueue} {log : MapedFileQueue Bytes} {os os' : List ℤ}
    (h : Sorted cq log os) (h' : Sorted cq log os') : os = os' := by
  have hperm : os.Perm os' :=
    (List.perm_ext_iff_of_nodup (h.ascending.imp ne_of_lt) (h'.ascending.imp ne_of_lt)).mpr
      fun o => (h.mem_iff o).trans (h'.mem_iff o).symm
  exact hperm.eq_of_pairwise (fun _ _ _ _ hab hba => absurd hab (not_lt_of_gt hba))
    h.ascending h'.ascending

lemma keys_pairwise (m : TreeMap ℤ Unit) : m.keys.Pairwise (· < ·) := by
  rw [TreeMap.keys, List.pairwise_map]
  exact m.ascending

/-- **When the state table is recreated.** The redo log being of any content, every entry is visited
once and the table gets one row for each pending message that is found, in the order of the
offsets, if and only if one file has all the entries, and the messages can be read and have room. -/
theorem recreates_iff {log : MapedFileQueue Bytes} {created : ℤ → Bool}
    {s : TransactionStateService} (h : RedoLog s.tranRedoLog) :
    (∃ s', recreateStateTable log created s = some s' ∧ Recreated log s s') ↔
      Recreatable log created s := by
  by_cases hone : OneFile s.tranRedoLog
  swap
  · constructor
    · rintro ⟨s', -, hrec⟩
      exact absurd ((visitsAll_iff h).mp hrec.visits) hone
    · intro hcond
      exact absurd hcond.oneFile hone
  obtain ⟨m, hm, hmem⟩ := scan_of_oneFile h hone
  have hsorted : Sorted s.tranRedoLog log (m.keys.filter (found log)) := by
    refine ⟨(keys_pairwise m).filter _, fun o => ?_⟩
    rw [List.mem_filter, ← hmem]
    exact Iff.rfl
  have hpos := s.tranStateTable.size_pos
  have hiff := @appendRows_iff log created _ [] _ hpos m.keys s.tranStateTableOffset
    (Appended.nil hpos)
  simp only [List.nil_append, List.length_nil, Nat.zero_add] at hiff
  have hrec : recreateStateTable log created s = (appendRows log created m.keys
      (Chain.empty s.tranStateTable.mapedFileSize hpos, s.tranStateTableOffset)).map
        fun t => { s with tranStateTable := t.1, tranStateTableOffset := t.2 } := by
    rw [recreateStateTable, hm, Option.map_eq_bind]
    rfl
  constructor
  · rintro ⟨s', hs', hdone⟩
    rw [hrec] at hs'
    obtain ⟨t, ht, rfl⟩ := Option.map_eq_some_iff.mp hs'
    obtain ⟨os, hos, hrows⟩ := hdone.rows
    obtain rfl := hos.eq hsorted
    obtain ⟨hread, hfits⟩ := hiff.mp ⟨t, _, ht, rfl, hrows⟩
    refine ⟨hone, fun o ho => hread o ((hmem o).mpr ho), fun os hos k o hk => ?_⟩
    rw [hos.eq hsorted] at hk
    exact hfits k o hk
  · intro hcond
    obtain ⟨t, new, ht, hunits, hnew⟩ := hiff.mpr
      ⟨fun o ho => hcond.readable o ((hmem o).mp ho), hcond.fits _ hsorted⟩
    refine ⟨_, by rw [hrec, ht]; rfl, (visitsAll_iff h).mpr hone, _, hsorted, ?_⟩
    rw [← hunits] at hnew
    exact hnew

/-! ### A message in the second file -/

lemma pos_40 : 0 < 40 := by decide

/-- A full file of two entries. -/
def fullFile (fileFromOffset : ℕ) (us : List CQUnit) : MapedFile (List CQUnit) :=
  { fileFromOffset, mappedByteBuffer := us, wrotePostion := 40 }

def redoLogOf (files : List (MapedFile (List CQUnit))) : ConsumeQueue where
  mapedFileQueue := ⟨40, pos_40, files, 0, 0⟩

/-- A message is prepared and committed. -/
def endedFile : List CQUnit := [⟨300, 100, -1⟩, ⟨400, 100, 300⟩]

/-- The message at offset 0 is prepared; another one is committed. -/
def pendingFile : List CQUnit := [⟨0, 100, -1⟩, ⟨500, 100, 300⟩]

/-- A commit log with one prepared message of a group. -/
def preparedLog : MapedFileQueue Bytes :=
  ((Runs.run (step Alignment.testConfig) testStore preparedRun).map fun s =>
    s.master.store.commitLog.mapedFileQueue).getD (Chain.empty 1024 Chain.pos_1024)

def oneFile : ConsumeQueue := redoLogOf [fullFile 0 pendingFile]

def twoFiles : ConsumeQueue := redoLogOf [fullFile 0 endedFile, fullFile 40 pendingFile]

def service (tranRedoLog : ConsumeQueue) : TransactionStateService :=
  ⟨Chain.empty 2400 Alignment.pos_2400, 0, tranRedoLog⟩

lemma redoLog_oneFile : RedoLog oneFile where
  whole :=
    { chained := ⟨List.isChain_singleton _, by decide, by decide⟩
      dvd := by decide
      mapped := by decide
      wrote := by decide }
  available := by decide
  dvd_min := by decide

lemma redoLog_twoFiles : RedoLog twoFiles where
  whole :=
    { chained := ⟨List.isChain_pair.mpr ⟨rfl, rfl⟩, by decide, by decide⟩
      dvd := by decide
      mapped := by decide
      wrote := by decide }
  available := by decide
  dvd_min := by decide

lemma readable_zero : Readable preparedLog 0 ∧ found preparedLog 0 := by
  have hlook : (match lookMessageByOffset preparedLog (Int64.ofInt 0) with
      | .ok (some msgExt) => (msgExt.getProperty PROPERTY_PRODUCER_GROUP).isSome
      | _ => false) = true := by
    decide +kernel
  split at hlook
  · next msgExt heq =>
    refine ⟨⟨_, heq, fun m hm => ?_⟩, found_iff.mpr ⟨msgExt, heq⟩⟩
    obtain rfl := Option.mem_some_iff.mp hm
    exact hlook
  · cases hlook

lemma entryAt_oneFile (j : ℕ) : entryAt oneFile j = pendingFile[j]? := by
  have hentry := entryAt_eq redoLog_oneFile (m := 0) rfl rfl j
  rwa [Nat.zero_add] at hentry

lemma entryAt_twoFiles (j : ℕ) : entryAt twoFiles j = (endedFile ++ pendingFile)[j]? := by
  have hentry := entryAt_eq redoLog_twoFiles (m := 0) rfl rfl j
  rwa [Nat.zero_add] at hentry

/-- One file has the entries: the message gets its row. -/
theorem recreates_oneFile : ∃ s',
    recreateStateTable preparedLog (fun _ => true) (service oneFile) = some s' ∧
      Recreated preparedLog (service oneFile) s' := by
  refine (recreates_iff redoLog_oneFile).mpr ⟨fun i _ hi => ?_, fun o ho => ?_, ?_⟩
  · change (entryAt oneFile i).isSome at hi
    rw [entryAt_oneFile, isSome_getElem?] at hi
    have hi' : i < 2 := hi
    change 20 * i / 40 = 0
    omega
  · obtain ⟨i, u, -, hu, hprep, rfl, -⟩ := ho
    change entryAt oneFile i = some u at hu
    rw [entryAt_oneFile] at hu
    have hpending : ∀ v ∈ pendingFile, v.tagsCode = PreparedMessageTagsCode →
        v.offset.toInt = 0 := by
      decide
    rw [hpending u (List.mem_of_getElem? hu) hprep]
    exact readable_zero.1
  · intro os _ k o _
    exact ⟨.inl (by decide), fun _ => rfl⟩

/-- Two files have the entries: the scan does not see the second one, and the message at offset 0
gets no row. -/
theorem secondFile_not_recreated : RedoLog twoFiles ∧
    Pending twoFiles 0 ∧ found preparedLog 0 ∧
    (recreateStateTable preparedLog (fun _ => true)
      (service twoFiles)).map
        (fun s' => units TSStoreUnitSize s'.tranStateTable) = some [] ∧
    ¬ ∃ s', recreateStateTable preparedLog (fun _ => true)
        (service twoFiles) = some s' ∧
      Recreated preparedLog (service twoFiles) s' := by
  have hpending : Pending twoFiles 0 := by
    refine ⟨2, ⟨0, 100, -1⟩, by decide, by rw [entryAt_twoFiles]; rfl, rfl, rfl, ?_⟩
    intro j v hj hv
    rw [entryAt_twoFiles] at hv
    have hlater : ∀ v ∈ endedFile ++ pendingFile, v.tagsCode.toInt ≠ 0 := by decide
    exact fun hres => hlater v (List.mem_of_getElem? hv) hres.2
  refine ⟨redoLog_twoFiles, hpending, readable_zero.2, by decide, ?_⟩
  rintro ⟨s', -, hrec⟩
  obtain ⟨is, his, hcount⟩ := hrec.visits
  have hvisited : visited twoFiles = some [0, 1] := by decide
  obtain rfl : [0, 1] = is := Option.some.inj (hvisited.symm.trans his)
  have htwo := hcount 2
  have hentry : (entryAt twoFiles 2).isSome := by
    rw [entryAt_twoFiles]
    rfl
  rw [if_pos ⟨by decide, hentry⟩] at htwo
  exact absurd htwo (by decide)

end CloudMQ.RedoLogScan
