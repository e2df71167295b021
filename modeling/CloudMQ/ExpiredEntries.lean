import CloudMQ.LogicFiles

/-!
The head of a consume queue: `ConsumeQueue.deleteExpiredFile`, while the commit log loses its files
one after the other.

Files go as a whole, when their last entry has expired; the last file stays. What has expired in
the first file that stays lies in front of `minLogicOffset`. This is moved to the first entry there
that has not expired, and is not moved when all of them have.
-/

namespace CloudMQ.ExpiredEntries

open CloudMQ.Extents CloudMQ.Segment CloudMQ.Chain CloudMQ.Units CloudMQ.ConsumeQueues
open CloudMQ.QueueEntries CloudMQ.LogicFiles

/-! ### What is promised -/

/-- The place of the record of an entry. -/
abbrev phyOf (p : CQUnit × ℕ) : ℤ := p.1.offset.toInt

/-- `deleteExpiredFile`, with files that can be destroyed. -/
def expire (phyMin : ℤ) (cq : ConsumeQueue) : ConsumeQueue :=
  deleteExpiredFile phyMin (fun _ => true) cq

/-- Entries in the order of the commit log, in files of which none is shut down. -/
structure InOrder (cq : ConsumeQueue) : Prop extends WholeQueue cq where
  increasing : cq.entries.Pairwise fun u u' => u.offset < u'.offset
  available : ∀ f ∈ cq.mapedFileQueue.mapedFiles, f.available

/-- `minLogicOffset` lies behind expired entries only, and not behind the last entry. -/
structure Corrected (phyMin : ℤ) (cq : ConsumeQueue) : Prop where
  before : ∀ p ∈ placed cq, p.2 < cq.minLogicOffset → phyOf p < phyMin
  last : ∀ p ∈ (placed cq).getLast?, cq.minLogicOffset ≤ p.2

/-- What a call does to the entries and to `minLogicOffset`. -/
structure Expires (phyMin : ℤ) (cq cq' : ConsumeQueue) : Prop where
  kept : ∀ p ∈ placed cq, phyMin ≤ phyOf p → p ∈ placed cq'
  min_le : cq.minLogicOffset ≤ cq'.minLogicOffset
  behind : ∀ p ∈ placed cq', cq'.minLogicOffset ≤ p.2 → phyMin ≤ phyOf p
  before : ∀ p ∈ placed cq', p.2 < cq'.minLogicOffset → phyOf p < phyMin

/-- The last entry of the last file has not expired. -/
def Reached (phyMin : ℤ) (cq : ConsumeQueue) : Prop :=
  ∀ f ∈ cq.mapedFileQueue.mapedFiles.getLast?,
    ∀ u ∈ (unitsOf CQStoreUnitSize f).getLast?, phyMin ≤ u.offset.toInt

/-- The queue after calls with these offsets. -/
def expireAll (phyMins : List ℤ) (cq : ConsumeQueue) : ConsumeQueue :=
  phyMins.foldl (fun cq phyMin => expire phyMin cq) cq

/-! ### The order of the entries -/

section Order

variable {cq : ConsumeQueue} {f : MapedFile (List CQUnit)}

lemma pairwise_placedOf (f : MapedFile (List CQUnit)) :
    (placedOf f).Pairwise fun p p' => p.2 < p'.2 := by
  refine List.pairwise_map.mpr (List.pairwise_iff_getElem.mpr fun i j hi hj hij => ?_)
  simp only [List.getElem_zipIdx, Nat.zero_add]
  exact Nat.add_lt_add_left (Nat.mul_lt_mul_of_pos_left hij (by decide)) _

/-- Entries lie in the order of their logic offsets. -/
lemma pairwise_placed (h : WholeQueue cq) : (placed cq).Pairwise fun p p' => p.2 < p'.2 := by
  refine List.pairwise_flatMap.mpr ⟨fun f _ => pairwise_placedOf f, ?_⟩
  refine List.pairwise_iff_getElem.mpr fun i j hi hj hij p hp p' hp' => ?_
  have hstart := end_le_start h.chained hij (List.getElem?_eq_getElem hi)
    (List.getElem?_eq_getElem hj)
  have hlt := (le_of_mem_placedOf h (List.getElem_mem hi) hp).2
  have hle := (le_of_mem_placedOf h (List.getElem_mem hj) hp').1
  have hwrote := wrote_le h.chained (List.getElem_mem hi)
  omega

/-- Entries lie in the order of their records. -/
lemma InOrder.pairwise (h : InOrder cq) :
    (placed cq).Pairwise fun p p' => p.2 < p'.2 ∧ phyOf p < phyOf p' := by
  refine (pairwise_placed h.toWhole).and ?_
  have hincr := h.increasing
  rw [← map_fst_placed, List.pairwise_map] at hincr
  exact hincr.imp fun hlt => Int64.lt_iff_toInt_lt.mp hlt

/-- Of two entries, one lies in front of the other, and so does its record. -/
lemma InOrder.trichotomy (h : InOrder cq) {p p' : CQUnit × ℕ} (hp : p ∈ placed cq)
    (hp' : p' ∈ placed cq) :
    p = p' ∨ p.2 < p'.2 ∧ phyOf p < phyOf p' ∨ p'.2 < p.2 ∧ phyOf p' < phyOf p := by
  have hpair := List.pairwise_iff_getElem.mp h.pairwise
  obtain ⟨i, hi, rfl⟩ := List.getElem_of_mem hp
  obtain ⟨j, hj, rfl⟩ := List.getElem_of_mem hp'
  rcases lt_trichotomy i j with hij | rfl | hij
  · exact .inr (.inl (hpair i j hi hj hij))
  · exact .inl rfl
  · exact .inr (.inr (hpair j i hj hi hij))

lemma InOrder.phy_le (h : InOrder cq) {p p' : CQUnit × ℕ} (hp : p ∈ placed cq)
    (hp' : p' ∈ placed cq) (hle : p.2 ≤ p'.2) : phyOf p ≤ phyOf p' := by
  rcases h.trichotomy hp hp' with rfl | ⟨-, hlt⟩ | ⟨hlt, -⟩
  · exact le_rfl
  · exact hlt.le
  · omega

lemma InOrder.phy_lt (h : InOrder cq) {p p' : CQUnit × ℕ} (hp : p ∈ placed cq)
    (hp' : p' ∈ placed cq) (hlt : p.2 < p'.2) : phyOf p < phyOf p' := by
  rcases h.trichotomy hp hp' with rfl | ⟨-, hphy⟩ | ⟨hgt, -⟩
  · exact absurd hlt (lt_irrefl _)
  · exact hphy
  · omega

lemma le_last (h : WholeQueue cq) {p last : CQUnit × ℕ} (hp : p ∈ placed cq)
    (hlast : last ∈ (placed cq).getLast?) : p.2 ≤ last.2 := by
  have hsplit := List.dropLast_append_getLast? last hlast
  have hpair := pairwise_placed h
  rw [← hsplit] at hp hpair
  rcases List.mem_append.mp hp with hp | hp
  · exact ((List.pairwise_append.mp hpair).2.2 p hp last (by simp)).le
  · rw [List.mem_singleton.mp hp]

end Order

/-! ### Files at the head -/

section Head

variable {cq : ConsumeQueue} {f : MapedFile (List CQUnit)} {phyMin : ℤ}

/-- The files that go, and why the first one that stays does so. -/
lemma deleteByOffset_split {U : Type} {size unitSize : ℕ} (hpos : 0 < unitSize)
    (hle : unitSize ≤ size) {lastUnit : List U → ℤ} {offset : ℤ}
    {files : List (MapedFile (List U))} (hfull : ∀ f ∈ files.dropLast, f.wrotePostion = size)
    (hav : ∀ f ∈ files, f.available) :
    ∃ gone, files = gone ++ MapedFileQueue.deleteByOffset size unitSize lastUnit offset
        (fun _ => true) files ∧
      (MapedFileQueue.deleteByOffset size unitSize lastUnit offset (fun _ => true)
        files).getLast? = files.getLast? ∧
      (∀ f ∈ gone, f.wrotePostion = size ∧ lastUnit f.mappedByteBuffer < offset) ∧
      ∀ f g rest, MapedFileQueue.deleteByOffset size unitSize lastUnit offset (fun _ => true)
        files = f :: g :: rest →
          f.wrotePostion = size ∧ offset ≤ lastUnit f.mappedByteBuffer := by
  induction files with
  | nil => exact ⟨[], rfl, rfl, by simp, by simp [MapedFileQueue.deleteByOffset]⟩
  | cons f files ih =>
    cases files with
    | nil => exact ⟨[], rfl, rfl, by simp, by simp [MapedFileQueue.deleteByOffset]⟩
    | cons g rest =>
      have hf : f.wrotePostion = size := hfull f (by simp)
      have hsel : size - unitSize < f.wrotePostion ∧ unitSize ≤ size ∧ f.available :=
        ⟨by omega, hle, hav f (by simp)⟩
      rw [MapedFileQueue.deleteByOffset, if_pos hsel]
      by_cases hlt : lastUnit f.mappedByteBuffer < offset
      · rw [if_pos hlt, if_pos rfl]
        obtain ⟨gone, hsplit, hlast, hgone, hstay⟩ :=
          ih (fun f' hf' => hfull f' (by simp [hf'])) (fun f' hf' => hav f' (by simp [hf']))
        refine ⟨f :: gone, by rw [List.cons_append, ← hsplit],
          by rw [hlast, List.getLast?_cons_cons], fun f' hf' => ?_, hstay⟩
        rcases List.mem_cons.mp hf' with rfl | hf'
        · exact ⟨hf, hlt⟩
        · exact hgone f' hf'
      · rw [if_neg hlt]
        refine ⟨[], rfl, rfl, by simp, fun f' g' rest' heq => ?_⟩
        obtain ⟨rfl, -⟩ := List.cons.inj heq
        exact ⟨hf, Int.not_lt.mp hlt⟩

/-- The last unit of a full file is that of its last entry, and no other lies behind it. -/
lemma InOrder.phy_le_lastOffset (h : InOrder cq) (hf : f ∈ cq.mapedFileQueue.mapedFiles)
    (hfull : f.wrotePostion = cq.mapedFileQueue.mapedFileSize) :
    (∃ p ∈ placedOf f, phyOf p = lastOffset f.mappedByteBuffer) ∧
      ∀ p ∈ placedOf f, phyOf p ≤ lastOffset f.mappedByteBuffer := by
  have hlen := length_unitsOf h.toWhole hf
  have hmapped := h.mapped f hf
  have hpos := cq.mapedFileQueue.size_pos
  have hunits : unitsOf CQStoreUnitSize f = f.mappedByteBuffer := by
    refine List.take_of_length_le ?_
    rw [hfull, ← hmapped, Nat.mul_div_cancel_left _ h.pos]
  have hne : placedOf f ≠ [] := by
    intro hnil
    rw [← map_fst_placedOf, hnil, hfull] at hlen
    simp only [List.map_nil, List.length_nil, Nat.mul_zero] at hlen
    omega
  obtain ⟨front, last, hsplit⟩ := List.eq_nil_or_concat (placedOf f) |>.resolve_left hne
  rw [List.concat_eq_append] at hsplit
  have hlast : lastOffset f.mappedByteBuffer = phyOf last := by
    rw [lastOffset, ← hunits, ← map_fst_placedOf, hsplit]
    simp
  refine ⟨⟨last, by rw [hsplit]; simp, hlast.symm⟩, fun p hp => ?_⟩
  have hmem : ∀ p ∈ placedOf f, p ∈ placed cq := fun p hp => List.mem_flatMap.mpr ⟨f, hf, hp⟩
  have hpair := pairwise_placedOf f
  rw [hlast]
  refine h.phy_le (hmem p hp) (hmem last (by rw [hsplit]; simp)) ?_
  rw [hsplit] at hp hpair
  rcases List.mem_append.mp hp with hp | hp
  · exact ((List.pairwise_append.mp hpair).2.2 p hp last (by simp)).le
  · rw [List.mem_singleton.mp hp]

lemma mapedFiles_expire (phyMin : ℤ) (cq : ConsumeQueue) :
    (expire phyMin cq).mapedFileQueue = cq.mapedFileQueue.deleteExpiredFileByOffset phyMin
      CQStoreUnitSize lastOffset (fun _ => true) :=
  mapedFileQueue_correctMinOffset _ _

/-- **The files that go.** Their entries have all expired; when more than one file stays, the first
of them has an entry that has not. -/
lemma expire_files (h : InOrder cq) :
    ∃ gone, cq.mapedFileQueue.mapedFiles = gone ++ (expire phyMin cq).mapedFileQueue.mapedFiles ∧
      (expire phyMin cq).mapedFileQueue.mapedFiles.getLast? =
        cq.mapedFileQueue.mapedFiles.getLast? ∧
      (∀ f ∈ gone, ∀ p ∈ placedOf f, phyOf p < phyMin) ∧
      ∀ f g rest, (expire phyMin cq).mapedFileQueue.mapedFiles = f :: g :: rest →
        ∃ p ∈ placedOf f, phyMin ≤ phyOf p := by
  have hle : CQStoreUnitSize ≤ cq.mapedFileQueue.mapedFileSize :=
    Nat.le_of_dvd cq.mapedFileQueue.size_pos h.dvd
  obtain ⟨gone, hsplit, hlast, hgone, hstay⟩ := @deleteByOffset_split CQUnit _ _ h.pos hle
    lastOffset phyMin _ (fun f hf => full_of_mem_dropLast h.chained hf) h.available
  have hfiles := congrArg MapedFileQueue.mapedFiles (mapedFiles_expire phyMin cq)
  have hsplit' := hsplit.trans (congrArg (gone ++ ·) hfiles.symm)
  refine ⟨gone, hsplit', (congrArg List.getLast? hfiles).trans hlast, fun f hf p hp => ?_,
    fun f g rest heq => ?_⟩
  · obtain ⟨hfull, hlt⟩ := hgone f hf
    have hmem : f ∈ cq.mapedFileQueue.mapedFiles := by
      rw [hsplit]
      exact List.mem_append_left _ hf
    exact ((h.phy_le_lastOffset hmem hfull).2 p hp).trans_lt hlt
  · obtain ⟨hfull, hle⟩ := hstay f g rest (hfiles.symm.trans heq)
    have hmem : f ∈ cq.mapedFileQueue.mapedFiles := by
      rw [hsplit', heq]
      exact List.mem_append_right _ List.mem_cons_self
    obtain ⟨p, hp, hlast⟩ := (h.phy_le_lastOffset hmem hfull).1
    exact ⟨p, hp, hlast ▸ hle⟩

/-- The entries that go have expired, and the others stay as they are. -/
lemma expire_placed (h : InOrder cq) :
    ∃ gone, placed cq = gone ++ placed (expire phyMin cq) ∧ ∀ p ∈ gone, phyOf p < phyMin := by
  obtain ⟨gone, hsplit, -, hgone, -⟩ := @expire_files cq phyMin h
  refine ⟨gone.flatMap placedOf, ?_, fun p hp => ?_⟩
  · rw [placed, hsplit, List.flatMap_append]
    rfl
  · obtain ⟨f, hf, hp⟩ := List.mem_flatMap.mp hp
    exact hgone f hf p hp

lemma InOrder.expire (h : InOrder cq) (phyMin : ℤ) : InOrder (expire phyMin cq) := by
  obtain ⟨gone, hsplit, -⟩ := @expire_files cq phyMin h
  refine ⟨(keeps_deleteExpiredFile h.toWhole phyMin _).1, ?_, fun f hf => h.available f ?_⟩
  · obtain ⟨gone, hplaced, -⟩ := @expire_placed cq phyMin h
    refine h.increasing.sublist ?_
    rw [← map_fst_placed, ← map_fst_placed, hplaced, List.map_append]
    exact List.sublist_append_right _ _
  · rw [hsplit]
    exact List.mem_append_right _ hf

lemma mem_placedOf {p : CQUnit × ℕ} : p ∈ placedOf f ↔
    ∃ i, (unitsOf CQStoreUnitSize f)[i]? = some p.1 ∧
      p.2 = f.fileFromOffset + CQStoreUnitSize * i := by
  rw [placedOf, List.mem_map]
  constructor
  · rintro ⟨⟨u, i⟩, hi, rfl⟩
    exact ⟨i, List.mem_zipIdx_iff_getElem?.mp hi, rfl⟩
  · rintro ⟨i, hu, hp⟩
    exact ⟨(p.1, i), List.mem_zipIdx_iff_getElem?.mpr hu, Prod.ext rfl hp.symm⟩

/-- The scan of the first file. -/
lemma correctMinOffset_cases {rest : List (MapedFile (List CQUnit))}
    (hfiles : cq.mapedFileQueue.mapedFiles = f :: rest) (hav : f.available) :
    (∃ p ∈ placedOf f, phyMin ≤ phyOf p ∧ (cq.correctMinOffset phyMin).minLogicOffset = p.2 ∧
        ∀ p' ∈ placedOf f, p'.2 < p.2 → phyOf p' < phyMin) ∨
      (cq.correctMinOffset phyMin).minLogicOffset = cq.minLogicOffset ∧
        ∀ p ∈ placedOf f, phyOf p < phyMin := by
  have hhead : cq.mapedFileQueue.mapedFiles.head? = some f := by rw [hfiles]; rfl
  simp only [ConsumeQueue.correctMinOffset, hhead, hav, if_true]
  cases hfind : (unitsOf CQStoreUnitSize f).findIdx? fun u => decide (phyMin ≤ u.offset.toInt) with
  | none =>
    refine .inr ⟨rfl, fun p hp => ?_⟩
    obtain ⟨i, hi, -⟩ := mem_placedOf.mp hp
    have := List.findIdx?_eq_none_iff.mp hfind p.1 (List.mem_of_getElem? hi)
    simpa using this
  | some i =>
    obtain ⟨hi, hle, hbefore⟩ := List.findIdx?_eq_some_iff_getElem.mp hfind
    refine .inl ⟨(_, _), mem_placedOf.mpr ⟨i, List.getElem?_eq_getElem hi, rfl⟩,
      of_decide_eq_true hle, rfl, fun p' hp' hlt => ?_⟩
    obtain ⟨j, hj, heq⟩ := mem_placedOf.mp hp'
    rw [heq] at hlt
    obtain ⟨hj', hu⟩ := List.getElem?_eq_some_iff.mp hj
    have := hbefore j (Nat.lt_of_mul_lt_mul_left (Nat.lt_of_add_lt_add_left hlt))
    rw [hu] at this
    simpa using this

/-- **Where `minLogicOffset` goes.** To the first entry that has not expired, or it stays as it is
because all entries have. -/
lemma expire_min (h : InOrder cq) :
    (∃ p ∈ placed (expire phyMin cq), phyMin ≤ phyOf p ∧
        (expire phyMin cq).minLogicOffset = p.2 ∧
        ∀ p' ∈ placed (expire phyMin cq), p'.2 < p.2 → phyOf p' < phyMin) ∨
      (expire phyMin cq).minLogicOffset = cq.minLogicOffset ∧
        (∀ p ∈ placed (expire phyMin cq), phyOf p < phyMin) ∧
        (expire phyMin cq).mapedFileQueue.mapedFiles.length ≤ 1 := by
  have h' := h.expire phyMin
  obtain ⟨-, -, -, -, hstay⟩ := @expire_files cq phyMin h
  have hqueue := congrArg MapedFileQueue.mapedFiles (mapedFiles_expire phyMin cq)
  cases hfiles : (expire phyMin cq).mapedFileQueue.mapedFiles with
  | nil =>
    refine .inr ⟨?_, by simp [placed, hfiles], by simp⟩
    rw [hqueue] at hfiles
    simp [expire, deleteExpiredFile, ConsumeQueue.correctMinOffset, hfiles]
  | cons f rest =>
    have hplaced : placed (expire phyMin cq) = placedOf f ++ rest.flatMap placedOf := by
      rw [placed, hfiles, List.flatMap_cons]
    have hpair := pairwise_placed h'.toWhole
    rw [hplaced] at hpair ⊢
    rcases @correctMinOffset_cases { cq with
        mapedFileQueue := cq.mapedFileQueue.deleteExpiredFileByOffset phyMin CQStoreUnitSize
          lastOffset fun _ => true } f phyMin rest (hqueue.symm.trans hfiles)
        (h'.available f (by simp [hfiles])) with ⟨p, hp, hle, hmin, hbefore⟩ | ⟨hmin, hall⟩
    · refine .inl ⟨p, List.mem_append_left _ hp, hle, hmin, fun p' hp' hlt => ?_⟩
      rcases List.mem_append.mp hp' with hp' | hp'
      · exact hbefore p' hp' hlt
      · have := (List.pairwise_append.mp hpair).2.2 p hp p' hp'
        omega
    · have hrest : rest = [] := by
        cases rest with
        | nil => rfl
        | cons g rest =>
          obtain ⟨p, hp, hle⟩ := hstay f g rest hfiles
          exact absurd (hall p hp) (Int.not_lt.mpr hle)
      rw [hrest]
      exact .inr ⟨hmin, by simpa using hall, by simp⟩

end Head

/-! ### Runs -/

section Run

variable {cq : ConsumeQueue} {f : MapedFile (List CQUnit)} {phyMin phyMin₀ : ℤ}

/-- The last entry of the last file is the last of the queue. -/
lemma last_placed (hf : f ∈ cq.mapedFileQueue.mapedFiles.getLast?) {u : CQUnit}
    (hu : u ∈ (unitsOf CQStoreUnitSize f).getLast?) :
    ∃ p ∈ placedOf f, p.1 = u ∧ p ∈ (placed cq).getLast? := by
  rw [← map_fst_placedOf, List.getLast?_map, Option.mem_def, Option.map_eq_some_iff] at hu
  obtain ⟨p, hp, hpu⟩ := hu
  have hmem := List.mem_of_getLast? hp
  refine ⟨p, hmem, hpu, ?_⟩
  rw [placed_snoc hf, List.getLast?_append_of_ne_nil _ (List.ne_nil_of_mem hmem)]
  exact hp

lemma corrected_zero (h : cq.minLogicOffset = 0) : Corrected phyMin cq where
  before p _ hlt := absurd hlt (by omega)
  last p _ := by omega

/-- A call keeps `minLogicOffset` where it may be. -/
lemma Corrected.expire (h : InOrder cq) (hc : Corrected phyMin₀ cq) :
    Corrected phyMin (expire phyMin cq) := by
  obtain ⟨gone, hplaced, -⟩ := @expire_placed cq phyMin h
  rcases @expire_min cq phyMin h with ⟨p, hp, -, hmin, hbefore⟩ | ⟨hmin, hall, -⟩
  · refine ⟨fun p' hp' hlt => hbefore p' hp' (hmin ▸ hlt), fun last hlast => ?_⟩
    rw [hmin]
    exact le_last (h.expire phyMin).toWhole hp hlast
  · refine ⟨fun p' hp' _ => hall p' hp', fun last hlast => ?_⟩
    rw [hmin]
    refine hc.last last ?_
    rw [hplaced,
      List.getLast?_append_of_ne_nil _ (List.ne_nil_of_mem (List.mem_of_getLast? hlast))]
    exact hlast

/-- **One call** does what it promises exactly when the last entry has not expired. -/
lemma expires_iff_reached (h : InOrder cq) (hc : Corrected phyMin₀ cq) (hle : phyMin₀ ≤ phyMin) :
    Expires phyMin cq (expire phyMin cq) ↔ Reached phyMin cq := by
  obtain ⟨-, -, hlastfile, -⟩ := @expire_files cq phyMin h
  obtain ⟨gone, hplaced, hgone⟩ := @expire_placed cq phyMin h
  have hmem : ∀ p ∈ placed (expire phyMin cq), p ∈ placed cq := fun p hp => by
    rw [hplaced]
    exact List.mem_append_right _ hp
  have hkept : ∀ p ∈ placed cq, phyMin ≤ phyOf p → p ∈ placed (expire phyMin cq) := by
    intro p hp hphy
    rw [hplaced] at hp
    refine (List.mem_append.mp hp).resolve_left fun hp => ?_
    exact absurd (hgone p hp) (Int.not_lt.mpr hphy)
  have hc' : Corrected phyMin (expire phyMin cq) := hc.expire h
  rcases @expire_min cq phyMin h with ⟨p, hp, hphy, hmin, -⟩ | ⟨hmin, hall, hone⟩
  · refine iff_of_true ⟨hkept, ?_, fun p' hp' hle' => ?_, hc'.before⟩ fun f hf u hu => ?_
    · by_contra hlt
      have := hc.before p (hmem p hp) (by omega)
      omega
    · exact hphy.trans (h.phy_le (hmem p hp) (hmem p' hp') (hmin ▸ hle'))
    · obtain ⟨last, -, rfl, hlast⟩ := last_placed hf hu
      exact hphy.trans (h.phy_le (hmem p hp) (List.mem_of_getLast? hlast)
        (le_last h.toWhole (hmem p hp) hlast))
  · constructor
    · -- the last entry stays, and `minLogicOffset` does not lie behind it
      intro he f hf u hu
      obtain ⟨last, hmemf, rfl, hlast⟩ := last_placed hf hu
      rw [← hlastfile] at hf
      have hlast' : last ∈ placed (expire phyMin cq) :=
        List.mem_flatMap.mpr ⟨f, List.mem_of_getLast? hf, hmemf⟩
      exact he.behind last hlast' (hmin ▸ hc.last last hlast)
    · intro hr
      have hnil : placed (expire phyMin cq) = [] := by
        match hfiles : (expire phyMin cq).mapedFileQueue.mapedFiles with
        | [] => rw [placed, hfiles, List.flatMap_nil]
        | [f] =>
          have hf : f ∈ (expire phyMin cq).mapedFileQueue.mapedFiles.getLast? := by
            rw [hfiles]
            rfl
          cases hu : (unitsOf CQStoreUnitSize f).getLast? with
          | none =>
            rw [placed, hfiles, List.flatMap_singleton, placedOf,
              List.getLast?_eq_none_iff.mp hu]
            rfl
          | some u =>
            obtain ⟨last, -, rfl, hlast⟩ := last_placed hf hu
            have := hall last (List.mem_of_getLast? hlast)
            exact absurd (hr f (hlastfile ▸ hf) _ hu) (Int.not_le.mpr this)
        | _ :: _ :: _ =>
          rw [hfiles] at hone
          exact absurd hone (by simp)
      exact ⟨hkept, hmin.ge, by simp [hnil], by simp [hnil]⟩

lemma expireAll_snoc (phyMins : List ℤ) (cq : ConsumeQueue) :
    expireAll (phyMins ++ [phyMin]) cq = expire phyMin (expireAll phyMins cq) := by
  rw [expireAll, List.foldl_append]
  rfl

/-- What every call of a run finds. -/
lemma corrected_expireAll {phyMins : List ℤ} (h : InOrder cq) (hc : Corrected phyMin₀ cq) :
    InOrder (expireAll phyMins cq) ∧
      ∃ phyMin₁ ∈ phyMin₀ :: phyMins, Corrected phyMin₁ (expireAll phyMins cq) := by
  induction phyMins using List.reverseRecOn with
  | nil => exact ⟨h, phyMin₀, List.mem_cons_self, hc⟩
  | append_singleton phyMins phyMin ih =>
    obtain ⟨h', phyMin₁, -, hc'⟩ := ih
    rw [expireAll_snoc]
    exact ⟨h'.expire phyMin, phyMin, by simp, hc'.expire h'⟩

/-- **Expired entries.** Whatever calls came before, a call does what it promises exactly when the
last entry of the last file has not expired, or there is none. -/
theorem expired_iff {phyMins : List ℤ}
    (hsorted : (phyMin₀ :: (phyMins ++ [phyMin])).Pairwise (· ≤ ·)) (h : InOrder cq)
    (hc : Corrected phyMin₀ cq) :
    Expires phyMin (expireAll phyMins cq) (expireAll (phyMins ++ [phyMin]) cq) ↔
      Reached phyMin (expireAll phyMins cq) := by
  obtain ⟨h', phyMin₁, hmem, hc'⟩ := @corrected_expireAll cq phyMin₀ phyMins h hc
  rw [expireAll_snoc]
  refine expires_iff_reached h' hc' ?_
  rw [← List.cons_append] at hsorted
  exact (List.pairwise_append.mp hsorted).2.2 phyMin₁ hmem phyMin (by simp)

/-- Two records of ten bytes, in one file. -/
def twoEntries : ConsumeQueue :=
  ⟨⟨40, pos_40,
    [{ fileFromOffset := 0, mappedByteBuffer := [⟨0, 10, 0⟩, ⟨10, 10, 0⟩], wrotePostion := 40 }],
    0, 0⟩, 10, 0⟩

lemma inOrder_twoEntries : InOrder twoEntries where
  chained := ⟨.singleton _, by simp [extents, twoEntries, extent],
    by simp [extents, twoEntries, extent]⟩
  dvd := by decide
  mapped := by simp [twoEntries, CQStoreUnitSize]
  wrote := by simp [twoEntries, CQStoreUnitSize]
  increasing := by decide
  available := by simp [twoEntries]

theorem expired_first : Expires 10 (expireAll [0] twoEntries) (expireAll [0, 10] twoEntries) ↔
    Reached 10 (expireAll [0] twoEntries) :=
  @expired_iff _ 10 0 [0] (by decide) inOrder_twoEntries (corrected_zero rfl)

/-- Both records are gone, and the queue still begins with the first. -/
theorem expired_all : ¬ ∀ phyMin₀ phyMins phyMin cq,
    (phyMin₀ :: (phyMins ++ [phyMin])).Pairwise (· ≤ ·) → InOrder cq → Corrected phyMin₀ cq →
    Expires phyMin (expireAll phyMins cq) (expireAll (phyMins ++ [phyMin]) cq) := by
  intro h
  have he := h 0 [] 20 twoEntries (by decide) inOrder_twoEntries (corrected_zero rfl)
  exact absurd (he.behind (⟨0, 10, 0⟩, 0) (by decide) (by decide)) (by decide)

end Run

end CloudMQ.ExpiredEntries
