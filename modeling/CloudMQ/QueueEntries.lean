import CloudMQ.ConsumeQueues

/-!
The entries of a consume queue by their numbers: reading from a number on, and what becomes of
the entries when others are put behind them and when files are deleted at the head.
-/

namespace CloudMQ.QueueEntries

open CloudMQ.Segment CloudMQ.Chain CloudMQ.Units CloudMQ.ConsumeQueues

/-! ### Units by number -/

section Numbered

variable {U : Type} {w : ℕ} {q q' q'' : MapedFileQueue (List U)} {f f' f'' : MapedFile (List U)}

/-- The unit with the given number, also when its file cannot be read any more. -/
def unitAt (w : ℕ) (q : MapedFileQueue (List U)) (i : ℕ) : Option U :=
  (q.findMapedFileByOffset (w * i) false).bind fun f =>
    if w * i % q.mapedFileSize < f.wrotePostion then
      f.mappedByteBuffer[w * i % q.mapedFileSize / w]?
    else none

/-- A unit lies in the one file that is written at its offset. -/
lemma unitAt_iff (hc : Chained q) {i : ℕ} {u : U} :
    unitAt w q i = some u ↔ ∃ f ∈ q.mapedFiles, f.fileFromOffset ≤ w * i ∧
      w * i < f.fileFromOffset + f.wrotePostion ∧
      f.mappedByteBuffer[(w * i - f.fileFromOffset) / w]? = some u := by
  constructor
  · intro h
    obtain ⟨f, hf, hu⟩ := Option.bind_eq_some_iff.mp h
    obtain ⟨hmem, hle, hlt⟩ := mem_of_find hc hf
    rw [mod_eq_sub hc hmem hle hlt] at hu
    split at hu
    · next hw => exact ⟨f, hmem, hle, by omega, hu⟩
    · exact absurd hu (by simp)
  · rintro ⟨f, hmem, hle, hlt, hu⟩
    have hwrote := wrote_le hc hmem
    have hlt' : w * i < f.fileFromOffset + q.mapedFileSize := by omega
    rw [unitAt, find_of_mem hc hmem hle hlt', Option.bind_some, mod_eq_sub hc hmem hle hlt',
      if_pos (by omega), hu]

lemma lt_max_of_unitAt (hc : Chained q) {i : ℕ} {u : U} (h : unitAt w q i = some u) :
    w * i < q.getMaxOffset := by
  obtain ⟨f, hmem, -, hlt, -⟩ := (unitAt_iff hc).mp h
  exact lt_of_lt_of_le hlt (wrote_le_max hc hmem)

/-- A number below the end belongs to the same unit as before, or to none any more. -/
structure Keeps (w : ℕ) (q q' : MapedFileQueue (List U)) : Prop where
  old : ∀ i u, w * i < q.getMaxOffset → unitAt w q' i = some u → unitAt w q i = some u
  max_le : q.getMaxOffset ≤ q'.getMaxOffset

lemma Keeps.refl (w : ℕ) (q : MapedFileQueue (List U)) : Keeps w q q := ⟨fun _ _ _ h => h, le_rfl⟩

lemma Keeps.trans (h : Keeps w q q') (h' : Keeps w q' q'') : Keeps w q q'' where
  old i u hi hu := h.old i u hi (h'.old i u (lt_of_lt_of_le hi h.max_le) hu)
  max_le := h.max_le.trans h'.max_le

/-- More units in a file, and none of the others touched. -/
structure Grown (w : ℕ) (f f' : MapedFile (List U)) : Prop where
  from_eq : f'.fileFromOffset = f.fileFromOffset
  wrote_le : f.wrotePostion ≤ f'.wrotePostion
  length_eq : f'.mappedByteBuffer.length = f.mappedByteBuffer.length
  dvd : w ∣ f.wrotePostion → w ∣ f'.wrotePostion
  same : ∀ k < f.wrotePostion / w, f'.mappedByteBuffer[k]? = f.mappedByteBuffer[k]?

lemma Grown.refl (w : ℕ) (f : MapedFile (List U)) : Grown w f f :=
  ⟨rfl, le_rfl, rfl, id, fun _ _ => rfl⟩

lemma Grown.trans (h : Grown w f f') (h' : Grown w f' f'') : Grown w f f'' where
  from_eq := h'.from_eq.trans h.from_eq
  wrote_le := h.wrote_le.trans h'.wrote_le
  length_eq := h'.length_eq.trans h.length_eq
  dvd := h'.dvd ∘ h.dvd
  same k hk := by
    rw [h'.same k (lt_of_lt_of_le hk (Nat.div_le_div_right h.wrote_le)), h.same k hk]

/-- Appending a unit writes it behind the others. -/
lemma grown_appendUnit {size : ℕ} {u : U} (h : appendUnit w size u f = some f') :
    Grown w f f' ∧ f'.wrotePostion ≤ size := by
  unfold appendUnit MapedFile.append at h
  split at h
  · next hroom =>
    rw [Option.some.injEq] at h
    subst h
    refine ⟨⟨rfl, Nat.le_add_right _ _, by simp, fun hd => Nat.dvd_add hd (dvd_refl w), ?_⟩, hroom⟩
    intro k hk
    exact List.getElem?_set_ne (by omega)
  · exact absurd h (by simp)

/-- The last file is filled further. -/
lemma Keeps.setLast (h : Whole w q) (hlast : q.mapedFiles.getLast? = some f) (hg : Grown w f f')
    (hfill : f'.wrotePostion ≤ q.mapedFileSize) :
    Whole w (q.setLast f') ∧ Keeps w q (q.setLast f') := by
  have hmem := List.mem_of_getLast? hlast
  have hwhole : Whole w (q.setLast f') := h.setLast hlast hg.from_eq hfill
    (by rw [hg.length_eq]; exact h.mapped f hmem) (hg.dvd (h.wrote f hmem))
  have hmax : q.getMaxOffset = f.fileFromOffset + f.wrotePostion := by
    rw [MapedFileQueue.getMaxOffset, hlast]
  have hmax' : (q.setLast f').getMaxOffset = f.fileFromOffset + f'.wrotePostion := by
    rw [MapedFileQueue.getMaxOffset, MapedFileQueue.setLast, List.getLast?_concat]
    exact congrArg (· + _) hg.from_eq
  refine ⟨hwhole, ⟨fun i u hi hu => ?_, ?_⟩⟩
  · obtain ⟨g, hgm, hle, hlt, hget⟩ := (unitAt_iff hwhole.chained).mp hu
    rw [unitAt_iff h.chained]
    rcases List.mem_append.mp hgm with hgm | hgm
    · exact ⟨g, List.dropLast_subset _ hgm, hle, hlt, hget⟩
    · obtain rfl := List.mem_singleton.mp hgm
      rw [hg.from_eq] at hle hget
      refine ⟨f, hmem, hle, hmax ▸ hi, ?_⟩
      rw [← hget, hg.same]
      rw [hmax] at hi
      obtain ⟨k, hk⟩ := h.wrote f hmem
      rw [hk, Nat.mul_div_cancel_left _ h.pos, Nat.div_lt_iff_lt_mul h.pos, Nat.mul_comm k, ← hk]
      omega
  · have := hg.wrote_le
    omega

/-- A file for the next unit, which may be a new one. -/
lemma Keeps.getLastMapedFile (h : Whole w q) {startOffset : ℕ} {fresh : Option (List U)}
    (hfresh : ∀ mem ∈ fresh, w * mem.length = q.mapedFileSize)
    (hq : q.getLastMapedFile startOffset fresh = (some f, q')) :
    Whole w q' ∧ Keeps w q q' ∧ q'.mapedFileSize = q.mapedFileSize ∧
      q'.mapedFiles.getLast? = some f := by
  obtain ⟨hwhole, -, hsize, hlast, -⟩ := h.getLastMapedFile hfresh hq
  refine ⟨hwhole, ?_, hsize, hlast⟩
  obtain ⟨-, -, -, rfl | ⟨-, hfiles, hzero, -, hcreate, -, hfull⟩⟩ :=
    getLastMapedFile_cases h.chained hq
  · exact Keeps.refl w q'
  · have hmax' : q'.getMaxOffset = f.fileFromOffset := by
      rw [MapedFileQueue.getMaxOffset, hlast]
      exact congrArg (f.fileFromOffset + ·) hzero
    -- a new file begins where the queue ended, and holds nothing
    refine ⟨fun i u _ hu => ?_, ?_⟩
    · obtain ⟨g, hgm, hle, hlt, hget⟩ := (unitAt_iff hwhole.chained).mp hu
      rw [hfiles] at hgm
      rcases List.mem_append.mp hgm with hgm | hgm
      · exact (unitAt_iff h.chained).mpr ⟨g, hgm, hle, hlt, hget⟩
      · rw [List.mem_singleton.mp hgm] at hle hlt
        omega
    · rw [hmax']
      cases hl : q.mapedFiles.getLast? with
      | none => simp [MapedFileQueue.getMaxOffset, hl]
      | some last =>
        have hlastfull := hfull last hl
        rw [MapedFileQueue.getMaxOffset, hl]
        simp only [MapedFileQueue.createOffset, hl, MapedFile.isFull, hlastfull,
          decide_true, if_true, Option.some.injEq] at hcreate
        exact (congrArg (last.fileFromOffset + ·) hlastfull).trans hcreate |>.le

/-- The files that stay when files go from the head: the last one is among them. -/
lemma deleteByOffset_files (size unitSize : ℕ) (lastUnit : List U → ℤ) (offset : ℤ)
    (destroys : MapedFile (List U) → Bool) (l : List (MapedFile (List U))) :
    (∀ g ∈ MapedFileQueue.deleteByOffset size unitSize lastUnit offset destroys l,
      g ∈ l ∨ ∃ f ∈ l, g = f.destroyed) ∧
    (MapedFileQueue.deleteByOffset size unitSize lastUnit offset destroys l).getLast?.map extent =
      l.getLast?.map extent := by
  fun_induction MapedFileQueue.deleteByOffset size unitSize lastUnit offset destroys l with
  | case1 => exact ⟨fun g hg => .inl hg, rfl⟩
  | case2 last => exact ⟨fun g hg => .inl hg, rfl⟩
  | case3 f g rest _ _ _ ih =>
    obtain ⟨hmem, hlast⟩ := ih
    refine ⟨fun g' hg' => ?_, by rw [hlast, List.getLast?_cons_cons]⟩
    rcases hmem g' hg' with h | ⟨f', h, rfl⟩
    · exact .inl (List.mem_cons_of_mem _ h)
    · exact .inr ⟨f', List.mem_cons_of_mem _ h, rfl⟩
  | case4 f g rest _ _ _ =>
    refine ⟨fun g' hg' => ?_, by rw [List.getLast?_cons_cons, List.getLast?_cons_cons]⟩
    rcases List.mem_cons.mp hg' with rfl | h
    · exact .inr ⟨f, List.mem_cons_self, rfl⟩
    · exact .inl (List.mem_cons_of_mem _ h)
  | case5 => exact ⟨fun g hg => .inl hg, rfl⟩
  | case6 => exact ⟨fun g hg => .inl hg, rfl⟩

/-- **Deleting files at the head.** -/
lemma Keeps.deleteExpiredFileByOffset (h : Whole w q) (offset : ℤ) (unitSize : ℕ)
    (lastUnit : List U → ℤ) (destroys : MapedFile (List U) → Bool) :
    Whole w (q.deleteExpiredFileByOffset offset unitSize lastUnit destroys) ∧
      Keeps w q (q.deleteExpiredFileByOffset offset unitSize lastUnit destroys) := by
  obtain ⟨hmem, hlast⟩ :=
    deleteByOffset_files q.mapedFileSize unitSize lastUnit offset destroys q.mapedFiles
  have hfile : ∀ g ∈ (q.deleteExpiredFileByOffset offset unitSize lastUnit destroys).mapedFiles,
      ∃ f ∈ q.mapedFiles, g.fileFromOffset = f.fileFromOffset ∧ g.wrotePostion = f.wrotePostion ∧
        g.mappedByteBuffer = f.mappedByteBuffer := by
    intro g hg
    rcases hmem g hg with hg | ⟨f, hf, rfl⟩
    · exact ⟨g, hg, rfl, rfl, rfl⟩
    · exact ⟨f, hf, rfl, rfl, rfl⟩
  have hwhole : Whole w (q.deleteExpiredFileByOffset offset unitSize lastUnit destroys) := by
    refine ⟨h.chained.of_suffix (deleteByOffset_suffix _ _ _ _ _ _), h.dvd, fun g hg => ?_,
      fun g hg => ?_⟩
    · obtain ⟨f, hf, -, -, hm⟩ := hfile g hg
      rw [hm]
      exact h.mapped f hf
    · obtain ⟨f, hf, -, hw, -⟩ := hfile g hg
      rw [hw]
      exact h.wrote f hf
  have hext : ∀ q₁ : MapedFileQueue (List U), q₁.getMaxOffset =
      ((q₁.mapedFiles.getLast?.map extent).map fun e => e.1 + e.2).getD 0 := by
    intro q₁
    rw [MapedFileQueue.getMaxOffset]
    cases q₁.mapedFiles.getLast? with
    | none => rfl
    | some f => rfl
  refine ⟨hwhole, ⟨fun i u _ hu => ?_, ?_⟩⟩
  · obtain ⟨g, hg, hle, hlt, hget⟩ := (unitAt_iff hwhole.chained).mp hu
    obtain ⟨f, hf, hfrom, hwrote, hm⟩ := hfile g hg
    rw [hfrom] at hle hlt hget
    exact (unitAt_iff h.chained).mpr ⟨f, hf, hle, hwrote ▸ hlt, hm ▸ hget⟩
  · rw [hext, hext]
    exact (congrArg (fun e => (Option.map (fun e => e.1 + e.2) e).getD 0) hlast.symm).le

/-- The end of a queue of units is the end of a unit. -/
lemma dvd_getMaxOffset (h : Whole w q) : w ∣ q.getMaxOffset := by
  rw [MapedFileQueue.getMaxOffset]
  cases hl : q.mapedFiles.getLast? with
  | none => exact Nat.dvd_zero w
  | some f =>
    have hmem := List.mem_of_getLast? hl
    exact Nat.dvd_add (h.dvd.trans (h.chained.aligned (extent f) (List.mem_map_of_mem hmem)))
      (h.wrote f hmem)

end Numbered

/-! ### Consume queues -/

section Queue

/-- `selectMapedBuffer(pos)`: what was written from the position on. -/
def selectUnits (pos : ℕ) (f : MapedFile (List CQUnit)) : Option (List CQUnit) :=
  if pos < f.wrotePostion ∧ f.available then
    some ((unitsOf CQStoreUnitSize f).drop (pos / CQStoreUnitSize))
  else none

/-- `ConsumeQueue.getIndexBuffer`: the entries from the given number to the end of their file. -/
def getIndexBuffer (cq : ConsumeQueue) (startIndex : ℕ) : Option (List CQUnit) :=
  let offset := startIndex * CQStoreUnitSize
  if cq.minLogicOffset ≤ offset then
    (cq.mapedFileQueue.findMapedFileByOffset offset false).bind
      (selectUnits (offset % cq.mapedFileQueue.mapedFileSize))
  else none

/-- The place in the last unit of a file. -/
def lastOffset (us : List CQUnit) : ℤ := (us.getLast?.map fun u => u.offset.toInt).getD 0

/-- `ConsumeQueue.deleteExpiredFile`. -/
def deleteExpiredFile (offset : ℤ) (destroys : MapedFile (List CQUnit) → Bool)
    (cq : ConsumeQueue) : ConsumeQueue :=
  ConsumeQueue.correctMinOffset offset { cq with
    mapedFileQueue :=
      cq.mapedFileQueue.deleteExpiredFileByOffset offset CQStoreUnitSize lastOffset destroys }

/-- The entry with the given number. -/
def entryAt (cq : ConsumeQueue) (i : ℕ) : Option CQUnit :=
  unitAt CQStoreUnitSize cq.mapedFileQueue i

abbrev WholeQueue (cq : ConsumeQueue) : Prop := Whole CQStoreUnitSize cq.mapedFileQueue

abbrev KeepsEntries (cq cq' : ConsumeQueue) : Prop :=
  Keeps CQStoreUnitSize cq.mapedFileQueue cq'.mapedFileQueue

variable {cq cq' : ConsumeQueue}

/-- **Reading.** The buffer holds the entries from its number on. -/
lemma entryAt_of_getIndexBuffer (h : WholeQueue cq) {startIndex : ℕ} {us : List CQUnit}
    (hb : getIndexBuffer cq startIndex = some us) {k : ℕ} (hk : k < us.length) :
    entryAt cq (startIndex + k) = us[k]? := by
  unfold getIndexBuffer at hb
  simp only at hb
  split at hb
  swap
  · exact absurd hb (by simp)
  obtain ⟨f, hf, hsel⟩ := Option.bind_eq_some_iff.mp hb
  obtain ⟨hmem, hle, hlt⟩ := mem_of_find h.chained hf
  rw [mod_eq_sub h.chained hmem hle hlt] at hsel
  unfold selectUnits at hsel
  split at hsel
  swap
  · exact absurd hsel (by simp)
  next hpos =>
  rw [Option.some.injEq] at hsel
  obtain ⟨n, hn⟩ := h.wrote f hmem
  obtain ⟨m, hm⟩ := h.dvd.trans (h.chained.aligned (extent f) (List.mem_map_of_mem hmem))
  change f.fileFromOffset = CQStoreUnitSize * m at hm
  have hunits : (unitsOf CQStoreUnitSize f).length = n := by
    have := length_unitsOf h hmem
    rw [hn] at this
    exact Nat.eq_of_mul_eq_mul_left h.pos this
  have hstart : (startIndex * CQStoreUnitSize - f.fileFromOffset) / CQStoreUnitSize =
      startIndex - m := by
    rw [hm, Nat.mul_comm startIndex, ← Nat.mul_sub, Nat.mul_div_cancel_left _ h.pos]
  rw [hstart] at hsel
  rw [← hsel, List.length_drop, hunits] at hk
  have hms : m ≤ startIndex := by
    rw [hm, Nat.mul_comm startIndex] at hle
    exact Nat.le_of_mul_le_mul_left hle h.pos
  have hget : us[k]? = f.mappedByteBuffer[startIndex - m + k]? := by
    rw [← hsel, List.getElem?_drop, unitsOf, List.getElem?_take, hn,
      Nat.mul_div_cancel_left _ h.pos, if_pos (by omega)]
  have hlen : startIndex - m + k < f.mappedByteBuffer.length := by
    have := hunits
    rw [unitsOf, List.length_take] at this
    omega
  rw [hget, List.getElem?_eq_getElem hlen]
  refine (unitAt_iff h.chained).mpr ⟨f, hmem, ?_, ?_, ?_⟩
  · rw [hm]
    exact Nat.mul_le_mul_left _ (by omega)
  · rw [hm, hn, ← Nat.mul_add]
    exact Nat.mul_lt_mul_of_pos_left (by omega) h.pos
  · rw [hm, ← Nat.mul_sub, Nat.mul_div_cancel_left _ h.pos,
      show startIndex + k - m = startIndex - m + k by omega, List.getElem?_eq_getElem hlen]

/-- A buffer reaches to the end of the file its first entry lies in. -/
lemma getIndexBuffer_cases (h : WholeQueue cq) {p : ℕ} {us : List CQUnit}
    (hb : getIndexBuffer cq p = some us) :
    ∃ f ∈ cq.mapedFileQueue.mapedFiles, f.available ∧ f.fileFromOffset ≤ CQStoreUnitSize * p ∧
      CQStoreUnitSize * p < f.fileFromOffset + f.wrotePostion ∧
      CQStoreUnitSize * (p + us.length) = f.fileFromOffset + f.wrotePostion := by
  unfold getIndexBuffer at hb
  simp only at hb
  split at hb
  swap
  · exact absurd hb (by simp)
  obtain ⟨f, hf, hsel⟩ := Option.bind_eq_some_iff.mp hb
  obtain ⟨hmem, hle, hlt⟩ := mem_of_find h.chained hf
  rw [mod_eq_sub h.chained hmem hle hlt] at hsel
  unfold selectUnits at hsel
  split at hsel
  swap
  · exact absurd hsel (by simp)
  next hpos =>
  rw [Option.some.injEq] at hsel
  obtain ⟨m, hm⟩ := h.dvd.trans (h.chained.aligned (extent f) (List.mem_map_of_mem hmem))
  change f.fileFromOffset = CQStoreUnitSize * m at hm
  have hunits := length_unitsOf h hmem
  have hpos' := h.pos
  have hstart : (p * CQStoreUnitSize - f.fileFromOffset) / CQStoreUnitSize = p - m := by
    rw [hm, Nat.mul_comm p, ← Nat.mul_sub, Nat.mul_div_cancel_left _ h.pos]
  have hmp : m ≤ p := by
    rw [hm, Nat.mul_comm p] at hle
    exact Nat.le_of_mul_le_mul_left hle h.pos
  rw [Nat.mul_comm p] at hle hpos
  refine ⟨f, hmem, hpos.2, hle, by omega, ?_⟩
  have hlen : p - m ≤ (unitsOf CQStoreUnitSize f).length := by
    refine Nat.le_of_mul_le_mul_left (c := CQStoreUnitSize) ?_ h.pos
    rw [hunits, Nat.mul_sub, ← hm]
    omega
  rw [← hsel, List.length_drop, hstart, hm, ← hunits, ← Nat.mul_add]
  congr 1
  omega

lemma length_getIndexBuffer_pos (h : WholeQueue cq) {p : ℕ} {us : List CQUnit}
    (hb : getIndexBuffer cq p = some us) : 0 < us.length := by
  obtain ⟨f, -, -, -, hlt, hend⟩ := getIndexBuffer_cases h hb
  rw [← hend] at hlt
  have := Nat.lt_of_mul_lt_mul_left hlt
  omega

/-- Where there is an entry that can be read, there is a buffer. -/
lemma getIndexBuffer_isSome (h : WholeQueue cq) (hdvd : CQStoreUnitSize ∣ cq.minLogicOffset) {p : ℕ}
    (hmin : cq.getMinOffsetInQuque ≤ p) {f : MapedFile (List CQUnit)}
    (hf : f ∈ cq.mapedFileQueue.mapedFiles) (havailable : f.available)
    (hle : f.fileFromOffset ≤ CQStoreUnitSize * p)
    (hlt : CQStoreUnitSize * p < f.fileFromOffset + f.wrotePostion) :
    ∃ us, getIndexBuffer cq p = some us := by
  have hwrote := wrote_le h.chained hf
  have hlt' : CQStoreUnitSize * p < f.fileFromOffset + cq.mapedFileQueue.mapedFileSize := by omega
  have hmin' : cq.minLogicOffset ≤ CQStoreUnitSize * p := by
    rw [← Nat.mul_div_cancel' hdvd]
    exact Nat.mul_le_mul_left _ hmin
  refine ⟨(unitsOf CQStoreUnitSize f).drop ((CQStoreUnitSize * p - f.fileFromOffset) /
    CQStoreUnitSize), ?_⟩
  rw [getIndexBuffer]
  simp only [Nat.mul_comm p]
  rw [if_pos hmin', find_of_mem h.chained hf hle hlt', Option.bind_some,
    mod_eq_sub h.chained hf hle hlt', selectUnits, if_pos ⟨by omega, havailable⟩]

lemma grown_fillPreBlank {size : ℕ} (n : ℕ) {f : MapedFile (List CQUnit)}
    (hfill : f.wrotePostion ≤ size) :
    Grown CQStoreUnitSize f (fillPreBlank size n f) ∧
      (fillPreBlank size n f).wrotePostion ≤ size := by
  induction n generalizing f with
  | zero => exact ⟨Grown.refl _ f, hfill⟩
  | succ n ih =>
    rw [fillPreBlank]
    cases happ : appendUnit CQStoreUnitSize size preBlank f with
    | none => exact ih hfill
    | some f₁ =>
      obtain ⟨hg, hfill₁⟩ := grown_appendUnit happ
      obtain ⟨hg', hfill'⟩ := ih hfill₁
      exact ⟨hg.trans hg', hfill'⟩

lemma grown_preFilled {size : ℕ} (cqOffset : ℕ) {f : MapedFile (List CQUnit)}
    (hfill : f.wrotePostion ≤ size) :
    Grown CQStoreUnitSize f (ConsumeQueue.preFilled size f cqOffset) ∧
      (ConsumeQueue.preFilled size f cqOffset).wrotePostion ≤ size := by
  unfold ConsumeQueue.preFilled
  split
  · exact grown_fillPreBlank _ hfill
  · exact ⟨Grown.refl _ f, hfill⟩

/-- One try of putting an entry leaves the others where they are. -/
lemma keeps_putMessagePostionInfo (h : WholeQueue cq) (created : Bool) (u : CQUnit) (cqOffset : ℕ) :
    WholeQueue (cq.putMessagePostionInfo created u cqOffset).1 ∧
      KeepsEntries cq (cq.putMessagePostionInfo created u cqOffset).1 := by
  unfold ConsumeQueue.putMessagePostionInfo
  split
  · exact ⟨h, Keeps.refl _ _⟩
  · simp only
    split
    · next q hq =>
      obtain ⟨rfl, -⟩ := getLastMapedFile_none hq
      exact ⟨h, Keeps.refl _ _⟩
    · next f q hq =>
      obtain ⟨hwhole, hkeeps, hsize, hlast⟩ := Keeps.getLastMapedFile h
        (fun mem hmem => by
          split at hmem
          · obtain rfl := Option.mem_some_iff.mp hmem
            exact length_newUnits h.dvd
          · simp at hmem) hq
      rw [← hsize]
      obtain ⟨hg, hfill⟩ := grown_preFilled cqOffset
        (wrote_le hwhole.chained (List.mem_of_getLast? hlast))
      cases happ : appendUnit CQStoreUnitSize q.mapedFileSize u
          (ConsumeQueue.preFilled q.mapedFileSize f cqOffset) with
      | none =>
        obtain ⟨h1, h2⟩ := Keeps.setLast hwhole hlast hg hfill
        exact ⟨h1, hkeeps.trans h2⟩
      | some f' =>
        obtain ⟨hg', hfill'⟩ := grown_appendUnit happ
        obtain ⟨h1, h2⟩ := Keeps.setLast hwhole hlast (hg.trans hg') hfill'
        exact ⟨h1, hkeeps.trans h2⟩

lemma keeps_putRetrying (h : WholeQueue cq) (created : ℕ → Bool) (u : CQUnit) (cqOffset n : ℕ) :
    WholeQueue (ConsumeQueue.putRetrying created u cqOffset n cq).1 ∧
      KeepsEntries cq (ConsumeQueue.putRetrying created u cqOffset n cq).1 := by
  induction n generalizing cq with
  | zero => exact ⟨h, Keeps.refl _ _⟩
  | succ n ih =>
    have hput := keeps_putMessagePostionInfo h (created n) u cqOffset
    rw [ConsumeQueue.putRetrying]
    rcases hres : cq.putMessagePostionInfo (created n) u cqOffset with ⟨cq', _ | _⟩
    · rw [hres] at hput
      obtain ⟨h1, h2⟩ := ih hput.1
      exact ⟨h1, hput.2.trans h2⟩
    · rw [hres] at hput
      exact hput

/-- **Putting an entry** leaves the others where they are. -/
lemma keeps_put (h : WholeQueue cq) (writeable : Bool) (created : ℕ → Bool) (u : CQUnit)
    (cqOffset : ℕ) :
    WholeQueue (cq.putMessagePostionInfoWrapper writeable created u cqOffset).1 ∧
      KeepsEntries cq (cq.putMessagePostionInfoWrapper writeable created u cqOffset).1 := by
  unfold ConsumeQueue.putMessagePostionInfoWrapper
  split
  · exact keeps_putRetrying h created u cqOffset _
  · exact ⟨h, Keeps.refl _ _⟩

lemma mapedFileQueue_correctMinOffset (phyMinOffset : ℤ) (cq : ConsumeQueue) :
    (cq.correctMinOffset phyMinOffset).mapedFileQueue = cq.mapedFileQueue := by
  unfold ConsumeQueue.correctMinOffset
  split
  · rfl
  · split
    · split
      · rfl
      · rfl
    · rfl

lemma keeps_deleteExpiredFile (h : WholeQueue cq) (offset : ℤ)
    (destroys : MapedFile (List CQUnit) → Bool) :
    WholeQueue (deleteExpiredFile offset destroys cq) ∧
      KeepsEntries cq (deleteExpiredFile offset destroys cq) := by
  unfold WholeQueue KeepsEntries deleteExpiredFile
  rw [mapedFileQueue_correctMinOffset]
  exact Keeps.deleteExpiredFileByOffset h offset _ _ _

/-- The end of the queue is where the next entry goes. -/
lemma lt_getMaxOffsetInQuque (h : WholeQueue cq) {i : ℕ} :
    i < cq.getMaxOffsetInQuque ↔ CQStoreUnitSize * i < cq.mapedFileQueue.getMaxOffset := by
  obtain ⟨n, hn⟩ := dvd_getMaxOffset h
  rw [ConsumeQueue.getMaxOffsetInQuque, hn, Nat.mul_div_cancel_left _ h.pos]
  exact (Nat.mul_lt_mul_left h.pos).symm

lemma lt_of_entryAt (h : WholeQueue cq) {i : ℕ} {u : CQUnit} (hu : entryAt cq i = some u) :
    i < cq.getMaxOffsetInQuque :=
  (lt_getMaxOffsetInQuque h).mpr (lt_max_of_unitAt h.chained hu)

lemma KeepsEntries.old (h : WholeQueue cq) (hk : KeepsEntries cq cq') {i : ℕ} {u : CQUnit}
    (hi : i < cq.getMaxOffsetInQuque) (hu : entryAt cq' i = some u) : entryAt cq i = some u :=
  Keeps.old hk i u ((lt_getMaxOffsetInQuque h).mp hi) hu

lemma KeepsEntries.max_le (hk : KeepsEntries cq cq') :
    cq.getMaxOffsetInQuque ≤ cq'.getMaxOffsetInQuque := Nat.div_le_div_right (Keeps.max_le hk)

/-! #### The min offset -/

lemma dvd_min_putMessagePostionInfo (hd : CQStoreUnitSize ∣ cq.minLogicOffset) (created : Bool)
    (u : CQUnit) (cqOffset : ℕ) :
    CQStoreUnitSize ∣ (cq.putMessagePostionInfo created u cqOffset).1.minLogicOffset := by
  have hmin : ∀ f : MapedFile (List CQUnit), CQStoreUnitSize ∣
      if ConsumeQueue.isPreBlank f cqOffset then cqOffset * CQStoreUnitSize
      else cq.minLogicOffset := by
    intro f
    split
    · exact Nat.dvd_mul_left _ _
    · exact hd
  unfold ConsumeQueue.putMessagePostionInfo
  split
  · exact hd
  · dsimp only
    split
    · exact hd
    · split
      · exact hmin _
      · exact hmin _

/-- **The min offset** is the number of an entry; putting an entry keeps that. -/
lemma dvd_min_put (hd : CQStoreUnitSize ∣ cq.minLogicOffset) (writeable : Bool)
    (created : ℕ → Bool) (u : CQUnit) (cqOffset : ℕ) :
    CQStoreUnitSize ∣
      (cq.putMessagePostionInfoWrapper writeable created u cqOffset).1.minLogicOffset := by
  have htries : ∀ n (cq : ConsumeQueue), CQStoreUnitSize ∣ cq.minLogicOffset →
      CQStoreUnitSize ∣ (ConsumeQueue.putRetrying created u cqOffset n cq).1.minLogicOffset := by
    intro n
    induction n with
    | zero => exact fun _ hd => hd
    | succ n ih =>
      intro cq hd
      have hput := dvd_min_putMessagePostionInfo hd (created n) u cqOffset
      rw [ConsumeQueue.putRetrying]
      rcases hres : cq.putMessagePostionInfo (created n) u cqOffset with ⟨cq', _ | _⟩
      · rw [hres] at hput
        exact ih cq' hput
      · rw [hres] at hput
        exact hput
  unfold ConsumeQueue.putMessagePostionInfoWrapper
  split
  · exact htries _ cq hd
  · exact hd

/-- Correcting it keeps that, too. -/
lemma dvd_min_deleteExpiredFile (h : WholeQueue cq) (hd : CQStoreUnitSize ∣ cq.minLogicOffset)
    (offset : ℤ) (destroys : MapedFile (List CQUnit) → Bool) :
    CQStoreUnitSize ∣ (deleteExpiredFile offset destroys cq).minLogicOffset := by
  have hwhole := (keeps_deleteExpiredFile h offset destroys).1
  unfold WholeQueue deleteExpiredFile at hwhole
  rw [mapedFileQueue_correctMinOffset] at hwhole
  unfold deleteExpiredFile ConsumeQueue.correctMinOffset
  split
  · exact hd
  · next f hf =>
    split
    · split
      · exact hd
      · exact Nat.dvd_add (hwhole.dvd.trans (hwhole.chained.aligned (extent f)
          (List.mem_map_of_mem (List.mem_of_mem_head? hf)))) (Nat.dvd_mul_right _ _)
    · exact hd

end Queue

end CloudMQ.QueueEntries
