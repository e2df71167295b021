import CloudMQ.QueueEntries

/-!
The ends of a consume queue: `ConsumeQueue.truncateDirtyLogicFiles`, which cuts the tail where the
commit log ends.

The files are scanned from the last one on, and each is left, cut or deleted. A file is scanned by
its units and not up to its written position; the first unit of a file is taken for an entry as it
is, the others only when they are valid.
-/

namespace CloudMQ.LogicFiles

open CloudMQ.Extents CloudMQ.Segment CloudMQ.Chain CloudMQ.Units CloudMQ.ConsumeQueues
open CloudMQ.QueueEntries

/-! ### Entries with their places -/

/-- The entries of a file, each with its logic offset. -/
def placedOf (f : MapedFile (List CQUnit)) : List (CQUnit × ℕ) :=
  (unitsOf CQStoreUnitSize f).zipIdx.map fun p => (p.1, f.fileFromOffset + CQStoreUnitSize * p.2)

/-- The entries of a queue, each with its logic offset. -/
def placed (cq : ConsumeQueue) : List (CQUnit × ℕ) :=
  cq.mapedFileQueue.mapedFiles.flatMap placedOf

section Placed

variable {cq : ConsumeQueue} {f : MapedFile (List CQUnit)}

lemma map_fst_placedOf (f : MapedFile (List CQUnit)) :
    (placedOf f).map Prod.fst = unitsOf CQStoreUnitSize f := by
  rw [placedOf, List.map_map]
  exact List.zipIdx_map_fst 0 _

lemma map_fst_placed (cq : ConsumeQueue) : (placed cq).map Prod.fst = cq.entries := by
  rw [placed, List.map_flatMap, ConsumeQueue.entries, units]
  exact List.flatMap_congr fun f _ => map_fst_placedOf f

/-- The entries of a file lie between its start and its written position. -/
lemma le_of_mem_placedOf (h : WholeQueue cq) (hf : f ∈ cq.mapedFileQueue.mapedFiles)
    {p : CQUnit × ℕ} (hp : p ∈ placedOf f) :
    f.fileFromOffset ≤ p.2 ∧ p.2 < f.fileFromOffset + f.wrotePostion := by
  obtain ⟨⟨u, i⟩, hi, rfl⟩ := List.mem_map.mp hp
  have hlt : i < (unitsOf CQStoreUnitSize f).length := by
    have := List.snd_lt_of_mem_zipIdx hi
    simpa using this
  have hlen := length_unitsOf h hf
  have := Nat.mul_lt_mul_of_pos_left hlt h.pos
  exact ⟨Nat.le_add_right _ _, by simp only; omega⟩

end Placed

/-! ### The model -/

/-- What a pass over a file comes to. -/
inductive Sweep
  /-- the file goes -/
  | deleteLast
  /-- the file is left with a written position; `returns` ends the whole function -/
  | kept (wrotePostion : ℕ) (maxPhysicOffset : Int64) (returns : Bool)

/-- The units of a file from the second one on; `pos` is the end of those before. -/
def sweepRest (logicFileSize : ℕ) (phyOffset : Int64) : List CQUnit → ℕ → Int64 → Sweep
  | [], pos, maxPhysicOffset => .kept pos maxPhysicOffset false
  | u :: us, pos, maxPhysicOffset =>
    if u.isValid then
      if phyOffset ≤ u.offset then .kept pos maxPhysicOffset true
      else if pos + CQStoreUnitSize = logicFileSize then
        .kept (pos + CQStoreUnitSize) u.offset true
      else sweepRest logicFileSize phyOffset us (pos + CQStoreUnitSize) u.offset
    else .kept pos maxPhysicOffset true

/-- The loop over the units of the last file. -/
def sweep (logicFileSize : ℕ) (phyOffset maxPhysicOffset : Int64) : List CQUnit → Sweep
  | [] => .kept 0 maxPhysicOffset false
  | u :: us =>
    if phyOffset ≤ u.offset then .deleteLast
    else sweepRest logicFileSize phyOffset us CQStoreUnitSize u.offset

/-- `setWrotePostion` and `setCommittedPosition` -/
def setPostion (pos : ℕ) (f : MapedFile (List CQUnit)) : MapedFile (List CQUnit) :=
  { f with wrotePostion := pos, committedPosition := pos, forced := min f.forced pos }

/-- The outer loop; `none` when it has not come to its end within so many rounds. -/
def truncateLoop (phyOffset : Int64) : ℕ → ConsumeQueue → Option ConsumeQueue
  | 0, _ => none
  | fuel + 1, cq =>
    match cq.mapedFileQueue.mapedFiles.getLast? with
    | none => some cq
    | some f =>
      match sweep cq.mapedFileQueue.mapedFileSize phyOffset cq.maxPhysicOffset
          f.mappedByteBuffer with
      | .deleteLast =>
        truncateLoop phyOffset fuel
          { cq with mapedFileQueue := cq.mapedFileQueue.deleteLastMapedFile }
      | .kept wrotePostion maxPhysicOffset returns =>
        let cq' := { cq with mapedFileQueue := cq.mapedFileQueue.setLast (setPostion wrotePostion f)
                             maxPhysicOffset := maxPhysicOffset }
        if returns then some cq' else truncateLoop phyOffset fuel cq'

/-- `ConsumeQueue.truncateDirtyLogicFiles` -/
def truncateDirtyLogicFiles (phyOffset : Int64) (fuel : ℕ) (cq : ConsumeQueue) :
    Option ConsumeQueue :=
  truncateLoop phyOffset fuel { cq with maxPhysicOffset := phyOffset - 1 }

/-! ### What is promised -/

/-- The unit of space that was never written. -/
def zeroUnit : CQUnit := ⟨0, 0, 0⟩

/-- Entries in the order of the commit log, and zeros behind them. -/
structure Ordered (cq : ConsumeQueue) : Prop extends WholeQueue cq where
  valid : ∀ u ∈ cq.entries, u.isValid
  increasing : cq.entries.Pairwise fun u u' => u.offset < u'.offset
  zeroed : ∀ f ∈ cq.mapedFileQueue.mapedFiles,
    ∀ u ∈ f.mappedByteBuffer.drop (f.wrotePostion / CQStoreUnitSize), u = zeroUnit

/-- The entries in front of an offset are left in their places, and no others. -/
structure TruncatedAt (phyOffset : Int64) (cq cq' : ConsumeQueue) : Prop where
  placed_eq : placed cq' = (placed cq).filter fun p => p.1.offset < phyOffset
  max_last : ∀ u ∈ cq'.entries.getLast?, cq'.maxPhysicOffset = u.offset
  /-- what is dispatched again begins at the offset -/
  max_none : cq'.entries = [] → cq'.maxPhysicOffset < phyOffset

/-- The function comes to its end, and truncates. -/
def Truncates (phyOffset : Int64) (cq : ConsumeQueue) : Prop :=
  ∃ fuel cq', truncateDirtyLogicFiles phyOffset fuel cq = some cq' ∧ TruncatedAt phyOffset cq cq'

/-- The last file has an entry, unless the log has none; and files that hold a single entry all go
as a whole. -/
structure Clear (phyOffset : Int64) (cq : ConsumeQueue) : Prop where
  ne_min : phyOffset ≠ Int64.minValue
  wrote : 0 < phyOffset → ∀ f ∈ cq.mapedFileQueue.mapedFiles.getLast?, f.wrotePostion ≠ 0
  several : cq.mapedFileQueue.mapedFileSize = CQStoreUnitSize →
    ∀ u ∈ cq.entries, phyOffset ≤ u.offset

/-! ### A pass over one file -/

section Sweeping

variable {cq : ConsumeQueue} {f : MapedFile (List CQUnit)} {phyOffset : Int64}

/-- What lies in front of the offset. -/
abbrev isBefore (phyOffset : Int64) (u : CQUnit) : Bool := u.offset < phyOffset

/-- When nothing behind an element without the property has it, the elements with it are those in
front. -/
lemma filter_eq_takeWhile {α : Type*} {p : α → Bool} {l : List α}
    (h : l.Pairwise fun a b => p b = true → p a = true) : l.filter p = l.takeWhile p := by
  induction l with
  | nil => rfl
  | cons a l ih =>
    obtain ⟨hhead, htail⟩ := List.pairwise_cons.mp h
    by_cases ha : p a = true
    · rw [List.filter_cons_of_pos ha, List.takeWhile_cons_of_pos ha, ih htail]
    · rw [List.filter_cons_of_neg ha, List.takeWhile_cons_of_neg ha, List.filter_eq_nil_iff]
      exact fun b hb hp => ha (hhead b hb hp)

lemma takeWhile_eq_take {α : Type*} (p : α → Bool) (l : List α) :
    l.takeWhile p = l.take (l.takeWhile p).length :=
  List.prefix_iff_eq_take.mp (List.takeWhile_prefix p)

/-- The units of a file from the second one on: the scan stops behind the last one in front of the
offset, when there is any. -/
lemma sweepRest_spec {size : ℕ} {us zs : List CQUnit} (hus : ∀ u ∈ us, u.isValid)
    (hzs : ∀ u ∈ zs, u.isValid = false) {pos : ℕ} {maxPhysicOffset : Int64}
    (hsize : pos + CQStoreUnitSize * (us ++ zs).length = size) (hne : us ++ zs ≠ []) :
    sweepRest size phyOffset (us ++ zs) pos maxPhysicOffset =
      .kept (pos + CQStoreUnitSize * (us.takeWhile (isBefore phyOffset)).length)
        (((us.takeWhile (isBefore phyOffset)).getLast?.map CQUnit.offset).getD maxPhysicOffset)
        true := by
  induction us generalizing pos maxPhysicOffset with
  | nil =>
    obtain ⟨z, zs, rfl⟩ := List.exists_cons_of_ne_nil hne
    rw [List.nil_append, sweepRest, if_neg (by simp [hzs z])]
    rfl
  | cons u us ih =>
    rw [List.cons_append, sweepRest, if_pos (hus u (by simp))]
    by_cases hle : phyOffset ≤ u.offset
    · rw [if_pos hle, List.takeWhile_cons_of_neg (by simpa [isBefore] using hle)]
      rfl
    · have hbefore : isBefore phyOffset u = true := by simpa [isBefore] using hle
      rw [if_neg hle, List.takeWhile_cons_of_pos hbefore, List.length_cons, List.getLast?_cons,
        Option.map_some, Option.getD_some]
      rw [List.cons_append, List.length_cons, Nat.mul_succ] at hsize
      by_cases hend : pos + CQStoreUnitSize = size
      · -- the file ends here
        have hnil : us ++ zs = [] := by
          have hpos : 0 < CQStoreUnitSize := by decide
          have : CQStoreUnitSize * (us ++ zs).length = 0 := by omega
          exact List.eq_nil_of_length_eq_zero
            ((Nat.mul_eq_zero.mp this).resolve_left hpos.ne')
        rw [if_pos hend, List.append_eq_nil_iff.mp hnil |>.1]
        rfl
      · have hrest : us ++ zs ≠ [] := by
          intro hnil
          rw [hnil, List.length_nil, Nat.mul_zero] at hsize
          omega
        rw [if_neg hend, ih (fun v hv => hus v (by simp [hv])) (by omega) hrest, Nat.mul_succ]
        congr 1
        · omega
        · cases (us.takeWhile (isBefore phyOffset)).getLast? with
          | none => rfl
          | some v => rfl

lemma isValid_zeroUnit : zeroUnit.isValid = false := rfl

end Sweeping

/-! ### Files at the tail -/

section Tail

variable {cq : ConsumeQueue} {f f' : MapedFile (List CQUnit)} {phyOffset : Int64}

/-- The queue without its last file. -/
abbrev deleteLast (cq : ConsumeQueue) : ConsumeQueue :=
  { cq with mapedFileQueue := cq.mapedFileQueue.deleteLastMapedFile }

lemma placed_snoc (hlast : cq.mapedFileQueue.mapedFiles.getLast? = some f) :
    placed cq = placed (deleteLast cq) ++ placedOf f := by
  change cq.mapedFileQueue.mapedFiles.flatMap placedOf =
    cq.mapedFileQueue.mapedFiles.dropLast.flatMap placedOf ++ placedOf f
  conv_lhs => rw [← List.dropLast_append_getLast? f hlast]
  rw [List.flatMap_append, List.flatMap_singleton]

lemma placed_setLast (cq : ConsumeQueue) (f' : MapedFile (List CQUnit)) (maxPhysicOffset : Int64) :
    placed { cq with mapedFileQueue := cq.mapedFileQueue.setLast f'
                     maxPhysicOffset := maxPhysicOffset } =
      placed (deleteLast cq) ++ placedOf f' := by
  change (cq.mapedFileQueue.mapedFiles.dropLast ++ [f']).flatMap placedOf = _
  rw [List.flatMap_append, List.flatMap_singleton]
  rfl

lemma entries_snoc (hlast : cq.mapedFileQueue.mapedFiles.getLast? = some f) :
    cq.entries = (deleteLast cq).entries ++ unitsOf CQStoreUnitSize f := by
  rw [← map_fst_placed, placed_snoc hlast, List.map_append, map_fst_placed, map_fst_placedOf]

lemma Ordered.deleteLast (h : Ordered cq)
    (hlast : cq.mapedFileQueue.mapedFiles.getLast? = some f) : Ordered (deleteLast cq) := by
  have hincr := h.increasing
  rw [entries_snoc hlast] at hincr
  refine ⟨⟨h.chained.deleteLastMapedFile, h.dvd, fun g hg => ?_, fun g hg => ?_⟩, fun u hu => ?_,
    (List.pairwise_append.mp hincr).1, fun g hg => ?_⟩
  · exact h.mapped g (List.dropLast_subset _ hg)
  · exact h.wrote g (List.dropLast_subset _ hg)
  · exact h.valid u (by rw [entries_snoc hlast]; exact List.mem_append_left _ hu)
  · exact h.zeroed g (List.dropLast_subset _ hg)

/-- The memory of a file: what was written, and zeros. -/
lemma Ordered.split (h : Ordered cq) (hf : f ∈ cq.mapedFileQueue.mapedFiles) :
    ∃ zs, f.mappedByteBuffer = unitsOf CQStoreUnitSize f ++ zs ∧ ∀ z ∈ zs, z = zeroUnit :=
  ⟨_, (List.take_append_drop _ _).symm, h.zeroed f hf⟩

lemma Ordered.valid_unitsOf (h : Ordered cq) (hf : f ∈ cq.mapedFileQueue.mapedFiles) {u : CQUnit}
    (hu : u ∈ unitsOf CQStoreUnitSize f) : u.isValid :=
  h.valid u (List.mem_flatMap.mpr ⟨f, hf, hu⟩)

/-- Cutting a file leaves the entries in front. -/
lemma placedOf_setPostion {k : ℕ} (hk : k ≤ (unitsOf CQStoreUnitSize f).length) :
    placedOf (setPostion (CQStoreUnitSize * k) f) = (placedOf f).take k := by
  have hunits : unitsOf CQStoreUnitSize (setPostion (CQStoreUnitSize * k) f) =
      (unitsOf CQStoreUnitSize f).take k := by
    simp only [unitsOf, setPostion] at hk ⊢
    rw [List.take_take, Nat.mul_div_cancel_left _ (by decide : 0 < CQStoreUnitSize)]
    rw [List.length_take] at hk
    congr 1
    omega
  have hzip : ((unitsOf CQStoreUnitSize f).take k).zipIdx =
      (unitsOf CQStoreUnitSize f).zipIdx.take k := by
    refine List.ext_getElem? fun i => ?_
    simp only [List.getElem?_zipIdx, List.getElem?_take]
    split
    · rfl
    · rfl
  rw [placedOf, placedOf, hunits, hzip, ← List.map_take]
  rfl

end Tail

/-! ### What the function does -/

section Truncate

variable {cq : ConsumeQueue} {f : MapedFile (List CQUnit)} {phyOffset : Int64}

/-- The entries of a file whose first one lies in front of the offset, up to the offset. -/
lemma filter_placedOf (h : Ordered cq) (hf : f ∈ cq.mapedFileQueue.mapedFiles) :
    (placedOf f).filter (fun p => p.1.offset < phyOffset) =
      (placedOf f).take
        ((unitsOf CQStoreUnitSize f).takeWhile (isBefore phyOffset)).length := by
  have hincr : (unitsOf CQStoreUnitSize f).Pairwise fun u u' => u.offset < u'.offset := by
    refine h.increasing.sublist ?_
    obtain ⟨front, rest, hfiles⟩ := List.append_of_mem hf
    rw [ConsumeQueue.entries, units, hfiles, List.flatMap_append, List.flatMap_cons]
    exact (List.sublist_append_left _ _).trans (List.sublist_append_right _ _)
  have hmono : (placedOf f).Pairwise fun p p' =>
      decide (p'.1.offset < phyOffset) = true → decide (p.1.offset < phyOffset) = true := by
    rw [← map_fst_placedOf, List.pairwise_map] at hincr
    refine hincr.imp fun {p p'} hlt hp => ?_
    rw [decide_eq_true_eq, Int64.lt_iff_toInt_lt] at *
    omega
  rw [filter_eq_takeWhile hmono, takeWhile_eq_take, ← map_fst_placedOf, List.takeWhile_map,
    List.length_map]
  rfl

/-- The offset lies behind the first entry of the last file: that file is cut. -/
lemma truncateLoop_kept (h : Ordered cq)
    (hlast : cq.mapedFileQueue.mapedFiles.getLast? = some f) {u : CQUnit} {us : List CQUnit}
    (hunits : unitsOf CQStoreUnitSize f = u :: us) (hlt : u.offset < phyOffset)
    (hsize : cq.mapedFileQueue.mapedFileSize ≠ CQStoreUnitSize) (fuel : ℕ) :
    ∃ cq', truncateLoop phyOffset (fuel + 1) cq = some cq' ∧ cq'.entries ≠ [] ∧
      placed cq' = (placed cq).filter (fun p => p.1.offset < phyOffset) ∧
      ∀ v ∈ cq'.entries.getLast?, cq'.maxPhysicOffset = v.offset := by
  have hmem := List.mem_of_getLast? hlast
  obtain ⟨zs, hbuf, hzs⟩ := h.split hmem
  have hbefore : isBefore phyOffset u = true := by simpa [isBefore] using hlt
  have hlen := h.mapped f hmem
  rw [hbuf, hunits, List.cons_append, List.length_cons, Nat.mul_succ] at hlen
  have hrest : us ++ zs ≠ [] := by
    intro hnil
    rw [hnil, List.length_nil, Nat.mul_zero, Nat.zero_add] at hlen
    exact hsize hlen.symm
  have hsweep : sweepRest cq.mapedFileQueue.mapedFileSize phyOffset (us ++ zs) CQStoreUnitSize
      u.offset = _ := sweepRest_spec
    (fun v hv => h.valid_unitsOf hmem (by rw [hunits]; exact List.mem_cons_of_mem _ hv))
    (fun z hz => by rw [hzs z hz]; rfl) ((Nat.add_comm _ _).trans hlen) hrest
  obtain ⟨k, hk⟩ : ∃ k, k = ((unitsOf CQStoreUnitSize f).takeWhile (isBefore phyOffset)).length :=
    ⟨_, rfl⟩
  have hkle : k ≤ (unitsOf CQStoreUnitSize f).length := by
    rw [hk]
    exact (List.takeWhile_prefix _).length_le
  have hkeep : CQStoreUnitSize + CQStoreUnitSize * (us.takeWhile (isBefore phyOffset)).length =
      CQStoreUnitSize * k := by
    rw [hk, hunits, List.takeWhile_cons_of_pos hbefore, List.length_cons, Nat.mul_succ,
      Nat.add_comm]
  rw [hkeep] at hsweep
  obtain ⟨m, hm⟩ : ∃ m, m =
      ((us.takeWhile (isBefore phyOffset)).getLast?.map CQUnit.offset).getD u.offset := ⟨_, rfl⟩
  rw [← hm] at hsweep
  have hplaced : placed { cq with
        mapedFileQueue := cq.mapedFileQueue.setLast (setPostion (CQStoreUnitSize * k) f)
        maxPhysicOffset := m } = placed (deleteLast cq) ++ (placedOf f).take k := by
    rw [placed_setLast, placedOf_setPostion hkle]
  have hentries : (placed (deleteLast cq) ++ (placedOf f).take k).map Prod.fst =
      (deleteLast cq).entries ++ u :: us.takeWhile (isBefore phyOffset) := by
    rw [List.map_append, map_fst_placed, List.map_take, map_fst_placedOf, hk, ← takeWhile_eq_take,
      hunits, List.takeWhile_cons_of_pos hbefore]
  refine ⟨{ cq with
    mapedFileQueue := cq.mapedFileQueue.setLast (setPostion (CQStoreUnitSize * k) f)
    maxPhysicOffset := m }, ?_, ?_, ?_, ?_⟩
  · simp only [truncateLoop, hlast, hbuf, hunits, List.cons_append, sweep]
    rw [if_neg (by simpa using hlt), hsweep]
    rfl
  · rw [← map_fst_placed, hplaced, hentries]
    simp
  · rw [hplaced, placed_snoc hlast, List.filter_append, filter_placedOf h hmem, ← hk]
    congr 1
    -- the files in front lie in front of the first entry of the last one
    refine (List.filter_eq_self.mpr fun p hp => ?_).symm
    have hincr := h.increasing
    rw [entries_snoc hlast, hunits] at hincr
    have hp' : p.1 ∈ (deleteLast cq).entries := by
      rw [← map_fst_placed]
      exact List.mem_map_of_mem hp
    have := (List.pairwise_append.mp hincr).2.2 p.1 hp' u (by simp)
    rw [decide_eq_true_eq]
    rw [Int64.lt_iff_toInt_lt] at *
    omega
  · intro v hv
    rw [← map_fst_placed, hplaced, hentries, List.getLast?_append_cons, List.getLast?_cons,
      Option.mem_some_iff] at hv
    rw [← hv, hm]
    cases (us.takeWhile (isBefore phyOffset)).getLast? with
    | none => rfl
    | some v => rfl

/-- The last file lies behind the offset, or it is empty and the offset is where the log begins. -/
lemma truncateLoop_delete (h : Ordered cq)
    (hlast : cq.mapedFileQueue.mapedFiles.getLast? = some f)
    (hhead : ∀ u ∈ (unitsOf CQStoreUnitSize f).head?, phyOffset ≤ u.offset)
    (hwrote : 0 < phyOffset → f.wrotePostion ≠ 0) (fuel : ℕ) :
    truncateLoop phyOffset (fuel + 1) cq = truncateLoop phyOffset fuel (deleteLast cq) ∧
      ∀ u ∈ unitsOf CQStoreUnitSize f, phyOffset ≤ u.offset := by
  have hmem := List.mem_of_getLast? hlast
  obtain ⟨zs, hbuf, hzs⟩ := h.split hmem
  cases hunits : unitsOf CQStoreUnitSize f with
  | nil =>
    have hzero : ¬ 0 < phyOffset := by
      intro hpos
      have hlen := length_unitsOf h.toWhole hmem
      rw [hunits, List.length_nil, Nat.mul_zero] at hlen
      exact hwrote hpos hlen.symm
    have hne : zs ≠ [] := by
      intro hnil
      have hlen := h.mapped f hmem
      have := cq.mapedFileQueue.size_pos
      rw [hbuf, hunits, hnil, List.append_nil, List.length_nil] at hlen
      omega
    obtain ⟨z, zs, rfl⟩ := List.exists_cons_of_ne_nil hne
    refine ⟨?_, by simp⟩
    have hle : phyOffset ≤ z.offset := by
      rw [hzs z (by simp)]
      simpa [zeroUnit] using hzero
    simp only [truncateLoop, hlast, hbuf, hunits, List.nil_append, sweep]
    rw [if_pos hle]
  | cons u us =>
    have hle : phyOffset ≤ u.offset := hhead u (by rw [hunits]; rfl)
    refine ⟨?_, fun v hv => ?_⟩
    · simp only [truncateLoop, hlast, hbuf, hunits, List.cons_append, sweep]
      rw [if_pos hle]
    · have hincr := h.increasing
      rw [entries_snoc hlast, hunits] at hincr
      rcases List.mem_cons.mp hv with rfl | hv
      · exact hle
      · have := (List.pairwise_cons.mp (List.pairwise_append.mp hincr).2.1).1 v hv
        rw [Int64.le_iff_toInt_le, Int64.lt_iff_toInt_lt] at *
        omega

/-- **The loop**, with enough rounds for all files. -/
lemma truncateLoop_spec {n : ℕ} (hn : cq.mapedFileQueue.mapedFiles.length = n) (h : Ordered cq)
    (hwrote : 0 < phyOffset → ∀ f ∈ cq.mapedFileQueue.mapedFiles.getLast?, f.wrotePostion ≠ 0)
    (hseveral : cq.mapedFileQueue.mapedFileSize = CQStoreUnitSize →
      ∀ u ∈ cq.entries, phyOffset ≤ u.offset) :
    ∃ cq', truncateLoop phyOffset (n + 1) cq = some cq' ∧
      placed cq' = (placed cq).filter (fun p => p.1.offset < phyOffset) ∧
      (∀ u ∈ cq'.entries.getLast?, cq'.maxPhysicOffset = u.offset) ∧
      (cq'.entries = [] → cq'.maxPhysicOffset = cq.maxPhysicOffset) := by
  induction n generalizing cq with
  | zero =>
    have hnil := List.eq_nil_of_length_eq_zero hn
    have hplaced : placed cq = [] := by rw [placed, hnil]; rfl
    have hentries : cq.entries = [] := by rw [← map_fst_placed, hplaced]; rfl
    refine ⟨cq, ?_, by rw [hplaced]; rfl, by simp [hentries], fun _ => rfl⟩
    rw [truncateLoop, hnil]
    rfl
  | succ n ih =>
    obtain ⟨f, hlast⟩ : ∃ f, cq.mapedFileQueue.mapedFiles.getLast? = some f :=
      ⟨_, List.getLast?_eq_some_getLast (List.ne_nil_of_length_eq_add_one hn)⟩
    have hmem := List.mem_of_getLast? hlast
    by_cases hhead : ∀ u ∈ (unitsOf CQStoreUnitSize f).head?, phyOffset ≤ u.offset
    · obtain ⟨hloop, hbehind⟩ :=
        truncateLoop_delete h hlast hhead (fun hpos => hwrote hpos f hlast) (n + 1)
      obtain ⟨cq', hcq', hplaced, hmax, hnone⟩ := @ih (deleteLast cq)
        (by rw [deleteLast, MapedFileQueue.deleteLastMapedFile, List.length_dropLast, hn]; rfl)
        (h.deleteLast hlast)
        (fun _ g hg => by
          rw [full_of_mem_dropLast h.chained (List.mem_of_getLast? hg)]
          exact cq.mapedFileQueue.size_pos.ne')
        (fun hsize u hu => hseveral hsize u (by
          rw [entries_snoc hlast]
          exact List.mem_append_left _ hu))
      refine ⟨cq', by rw [hloop, hcq'], ?_, hmax, hnone⟩
      rw [hplaced, placed_snoc hlast, List.filter_append]
      refine (List.append_right_eq_self.mpr (List.filter_eq_nil_iff.mpr fun p hp => ?_)).symm
      have := hbehind p.1 (by rw [← map_fst_placedOf]; exact List.mem_map_of_mem hp)
      simpa using this
    · push Not at hhead
      obtain ⟨u, hu, hlt⟩ := hhead
      obtain ⟨us, hunits⟩ := List.head?_eq_some_iff.mp hu
      rw [Int64.not_le] at hlt
      have hsize : cq.mapedFileQueue.mapedFileSize ≠ CQStoreUnitSize := by
        intro hsize
        have := hseveral hsize u (by rw [entries_snoc hlast, hunits]; simp)
        rw [Int64.le_iff_toInt_le, Int64.lt_iff_toInt_lt] at *
        omega
      obtain ⟨cq', hcq', hne, hplaced, hmax⟩ :=
        truncateLoop_kept h hlast hunits hlt hsize (n + 1)
      exact ⟨cq', hcq', hplaced, hmax, fun hnil => absurd hnil hne⟩

end Truncate

/-! ### Where it does not truncate -/

section Unclear

variable {cq cq' : ConsumeQueue} {f : MapedFile (List CQUnit)} {phyOffset : Int64}

/-- Files of one unit: the loop over such a file does not return, and the file is scanned again and
again. -/
lemma truncateLoop_stuck (hone : ∀ f ∈ cq.mapedFileQueue.mapedFiles, f.mappedByteBuffer.length = 1)
    (hbefore : ∃ f ∈ cq.mapedFileQueue.mapedFiles, ∃ u ∈ f.mappedByteBuffer, u.offset < phyOffset)
    (fuel : ℕ) : truncateLoop phyOffset fuel cq = none := by
  induction fuel generalizing cq with
  | zero => rfl
  | succ fuel ih =>
    obtain ⟨f, hf, u, hu, hlt⟩ := hbefore
    obtain ⟨g, hlast⟩ : ∃ g, cq.mapedFileQueue.mapedFiles.getLast? = some g :=
      ⟨_, List.getLast?_eq_some_getLast (List.ne_nil_of_mem hf)⟩
    have hmem := List.mem_of_getLast? hlast
    obtain ⟨v, hv⟩ := List.length_eq_one_iff.mp (hone g hmem)
    simp only [truncateLoop, hlast, hv, sweep]
    by_cases hle : phyOffset ≤ v.offset
    · rw [if_pos hle]
      refine ih (fun g' hg' => hone g' (List.dropLast_subset _ hg')) ⟨f, ?_, u, hu, hlt⟩
      -- the last file is not the one in front of the offset
      rw [← List.dropLast_append_getLast? g hlast] at hf
      refine (List.mem_append.mp hf).resolve_right fun hfg => ?_
      rw [List.mem_singleton.mp hfg, hv, List.mem_singleton] at hu
      rw [hu, Int64.lt_iff_toInt_lt] at hlt
      rw [Int64.le_iff_toInt_le] at hle
      omega
    · rw [if_neg hle]
      simp only [sweepRest]
      rw [if_neg Bool.false_ne_true]
      have hset : setPostion CQStoreUnitSize g ∈
          (cq.mapedFileQueue.setLast (setPostion CQStoreUnitSize g)).mapedFiles := by
        simp [MapedFileQueue.setLast]
      refine ih (fun g' hg' => ?_) ⟨_, hset, v, ?_, Int64.not_le.mp hle⟩
      · rcases List.mem_append.mp hg' with hg' | hg'
        · exact hone g' (List.dropLast_subset _ hg')
        · rw [List.mem_singleton.mp hg']
          exact hone g hmem
      · change v ∈ g.mappedByteBuffer
        rw [hv]
        exact List.mem_singleton_self v

lemma Ordered.length_one (h : Ordered cq)
    (hsize : cq.mapedFileQueue.mapedFileSize = CQStoreUnitSize)
    (hf : f ∈ cq.mapedFileQueue.mapedFiles) : f.mappedByteBuffer.length = 1 := by
  have hlen := h.mapped f hf
  rw [hsize] at hlen
  exact Nat.eq_of_mul_eq_mul_left h.pos (hlen.trans (Nat.mul_one _).symm)

/-- A last file without entries: the first unit of the unwritten space becomes one. -/
lemma truncateLoop_zero (h : Ordered cq) (hlast : cq.mapedFileQueue.mapedFiles.getLast? = some f)
    (hzero : f.wrotePostion = 0) (hpos : 0 < phyOffset)
    (hsize : cq.mapedFileQueue.mapedFileSize ≠ CQStoreUnitSize) {fuel : ℕ}
    (hrun : truncateLoop phyOffset fuel cq = some cq') : zeroUnit ∈ cq'.entries := by
  have hmem := List.mem_of_getLast? hlast
  obtain ⟨zs, hbuf, hzs⟩ := h.split hmem
  have hlen := h.mapped f hmem
  rw [show unitsOf CQStoreUnitSize f = [] by rw [unitsOf, hzero]; rfl, List.nil_append] at hbuf
  rw [hbuf] at hlen
  have htwo : 2 ≤ zs.length := by
    have hpos := cq.mapedFileQueue.size_pos
    rcases Nat.lt_or_ge zs.length 2 with hlt | hge
    · rcases Nat.lt_succ_iff.mp hlt |>.lt_or_eq with hnil | hone
      · rw [Nat.lt_one_iff.mp hnil] at hlen
        omega
      · rw [hone, Nat.mul_one] at hlen
        exact absurd hlen.symm hsize
    · exact hge
  obtain ⟨z, z', zs, rfl⟩ : ∃ z z' zs', zs = z :: z' :: zs' := by
    obtain ⟨z, zs₁, rfl⟩ := List.exists_cons_of_length_pos (by omega : 0 < zs.length)
    rw [List.length_cons] at htwo
    obtain ⟨z', zs₂, rfl⟩ := List.exists_cons_of_length_pos (by omega : 0 < zs₁.length)
    exact ⟨z, z', zs₂, rfl⟩
  cases fuel with
  | zero => exact absurd hrun (by simp [truncateLoop])
  | succ fuel =>
    have hz := hzs z (by simp)
    have hz' := hzs z' (by simp)
    have hlt : ¬ phyOffset ≤ zeroUnit.offset := by
      rw [Int64.not_le]
      exact hpos
    simp only [truncateLoop, hlast, hbuf, hz, hz', sweep, sweepRest] at hrun
    rw [if_neg hlt, if_neg (by rw [isValid_zeroUnit]; exact Bool.false_ne_true)] at hrun
    simp only [if_true, Option.some.injEq] at hrun
    rw [← map_fst_placed, ← hrun, placed_setLast, List.map_append, map_fst_placedOf]
    refine List.mem_append_right _ ?_
    simp [unitsOf, setPostion, hbuf, hz, CQStoreUnitSize]

lemma sub_one_lt (h : phyOffset ≠ Int64.minValue) : phyOffset - 1 < phyOffset := by
  have hmin := Int64.minValue_le_toInt phyOffset
  have hne : phyOffset.toInt ≠ Int64.minValue.toInt := fun heq => h (Int64.toInt_inj.mp heq)
  have hmax := Int64.toInt_lt phyOffset
  change -2 ^ 63 ≤ phyOffset.toInt at hmin
  change phyOffset.toInt ≠ -2 ^ 63 at hne
  rw [Int64.lt_iff_toInt_lt, Int64.toInt_sub, show (1 : Int64).toInt = 1 from rfl,
    Int.bmod_eq_of_le (by omega) (by omega)]
  omega

/-- **Truncation.** The function leaves the entries in front of the offset, and no others, unless
the last file is empty and the log is not, or the files hold one entry each and one is to stay. -/
theorem truncated_iff (h : Ordered cq) : Truncates phyOffset cq ↔ Clear phyOffset cq := by
  have h' : Ordered { cq with maxPhysicOffset := phyOffset - 1 } :=
    ⟨h.toWhole, h.valid, h.increasing, h.zeroed⟩
  constructor
  · rintro ⟨fuel, cq', hrun, ht⟩
    have hseveral : cq.mapedFileQueue.mapedFileSize = CQStoreUnitSize →
        ∀ f ∈ cq.mapedFileQueue.mapedFiles, ∀ u ∈ f.mappedByteBuffer, phyOffset ≤ u.offset := by
      intro hsize f hf u hu
      by_contra hlt
      have hstuck := @truncateLoop_stuck { cq with maxPhysicOffset := phyOffset - 1 } phyOffset
        (fun g hg => h.length_one hsize hg) ⟨f, hf, u, hu, Int64.not_le.mp hlt⟩ fuel
      cases hrun.symm.trans hstuck
    refine ⟨?_, fun hpos f hf hzero => ?_, fun hsize u hu => ?_⟩
    · rintro rfl
      have hnone : placed cq' = [] := by
        rw [ht.placed_eq]
        exact List.filter_eq_nil_iff.mpr fun p _ => by simp
      have hmax := ht.max_none (by rw [← map_fst_placed, hnone]; rfl)
      exact absurd (Int64.minValue_le cq'.maxPhysicOffset) (Int64.not_le.mpr hmax)
    · have hmem := List.mem_of_getLast? hf
      by_cases hsize : cq.mapedFileQueue.mapedFileSize = CQStoreUnitSize
      · obtain ⟨zs, hbuf, hzs⟩ := h.split hmem
        rw [show unitsOf CQStoreUnitSize f = [] by rw [unitsOf, hzero]; rfl, List.nil_append]
          at hbuf
        obtain ⟨z, hz⟩ := List.length_eq_one_iff.mp (h.length_one hsize hmem)
        have hle := hseveral hsize f hmem z (by rw [hz]; exact List.mem_singleton_self z)
        rw [hzs z (by rw [← hbuf, hz]; exact List.mem_singleton_self z)] at hle
        exact absurd hle (Int64.not_le.mpr hpos)
      · have hmem' := truncateLoop_zero h' hf hzero hpos hsize hrun
        rw [← map_fst_placed, ht.placed_eq] at hmem'
        obtain ⟨p, hp, heq⟩ := List.mem_map.mp hmem'
        have hentry : zeroUnit ∈ cq.entries := by
          rw [← map_fst_placed, ← heq]
          exact List.mem_map_of_mem (List.mem_filter.mp hp).1
        exact absurd (h.valid _ hentry) (by decide)
    · obtain ⟨f, hf, hu⟩ := List.mem_flatMap.mp hu
      exact hseveral hsize f hf u (List.take_subset _ _ hu)
  · intro hc
    obtain ⟨cq', hrun, hplaced, hlast, hnone⟩ := truncateLoop_spec rfl h' hc.wrote hc.several
    refine ⟨_, cq', hrun, hplaced, hlast, fun hnil => ?_⟩
    rw [hnone hnil]
    exact sub_one_lt hc.ne_min

lemma pos_40 : 0 < 40 := by decide

/-- Two records of ten bytes in a full file, and a new file behind it. -/
def emptyTail : ConsumeQueue :=
  ⟨⟨40, pos_40,
    [{ fileFromOffset := 0, mappedByteBuffer := [⟨0, 10, 0⟩, ⟨10, 10, 0⟩], wrotePostion := 40 },
     { fileFromOffset := 40, mappedByteBuffer := [zeroUnit, zeroUnit] }], 0, 0⟩, 10, 0⟩

lemma ordered_emptyTail : Ordered emptyTail where
  chained := ⟨by simp [extents, emptyTail, extent, Follows],
    by simp [extents, emptyTail, extent], by simp [extents, emptyTail, extent]⟩
  dvd := by decide
  mapped := by simp [emptyTail, CQStoreUnitSize]
  wrote := by simp [emptyTail, CQStoreUnitSize]
  valid := by decide
  increasing := by decide
  zeroed := by decide

theorem truncated_begin : Truncates 0 emptyTail ↔ Clear 0 emptyTail :=
  truncated_iff ordered_emptyTail

/-- The second record is gone; its entry stays, and the new file gets an entry of zeros. -/
theorem truncated_tail : ¬ ∀ phyOffset cq, Ordered cq → Truncates phyOffset cq := by
  intro h
  obtain ⟨fuel, cq', hrun, ht⟩ := h 10 emptyTail ordered_emptyTail
  have hzero : zeroUnit ∈ cq'.entries :=
    truncateLoop_zero (f := { fileFromOffset := 40, mappedByteBuffer := [zeroUnit, zeroUnit] })
      (⟨ordered_emptyTail.toWhole, ordered_emptyTail.valid, ordered_emptyTail.increasing,
        ordered_emptyTail.zeroed⟩ : Ordered { emptyTail with maxPhysicOffset := 10 - 1 })
      rfl rfl (by decide) (by decide) hrun
  rw [← map_fst_placed, ht.placed_eq] at hzero
  exact absurd hzero (by decide)

end Unclear

end CloudMQ.LogicFiles
