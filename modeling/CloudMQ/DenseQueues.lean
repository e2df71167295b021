import CloudMQ.Dispatch

/-!
Consume queues that begin with number zero and have an entry at every number: putting the entry
whose number comes next makes the queue one entry longer, and a restart finds the same entries.

Blank entries are written only in front of the first entry of a queue that begins later.
-/

namespace CloudMQ.DenseQueues

open CloudMQ.Utf8 CloudMQ.Message CloudMQ.Segment CloudMQ.Chain CloudMQ.Units
open CloudMQ.ConsumeQueues CloudMQ.Dispatch

/-- The first file begins with number zero, and so does the queue. -/
structure Dense (cq : ConsumeQueue) : Prop extends Tracked cq where
  starts : StartsAt CQStoreUnitSize 0 cq.mapedFileQueue
  first : ∀ f ∈ cq.mapedFileQueue.mapedFiles, f.firstCreateInQueue → f.fileFromOffset = 0
  min_eq : cq.minLogicOffset = 0

variable {cq : ConsumeQueue} {u : CQUnit}

lemma dense_newQueue {size : ℕ} (hpos : 0 < size) (hdvd : CQStoreUnitSize ∣ size) :
    Dense (newQueue size hpos) where
  toTracked := tracked_newQueue hpos hdvd
  starts := by simp [StartsAt, newQueue, Chain.empty]
  first := by simp [newQueue, Chain.empty]
  min_eq := rfl

/-- The entries are numbered from zero on. -/
lemma Dense.findUnit (h : Dense cq) (i : ℕ) :
    Units.findUnit CQStoreUnitSize cq.mapedFileQueue i = cq.entries[i]? := by
  have hunits := findUnit_units h.toSound h.starts i
  rwa [Nat.zero_add] at hunits

lemma Dense.getMaxOffset (h : Dense cq) :
    cq.mapedFileQueue.getMaxOffset = CQStoreUnitSize * cq.entries.length := by
  by_cases hnil : cq.mapedFileQueue.mapedFiles = []
  · simp [MapedFileQueue.getMaxOffset, ConsumeQueue.entries, units, hnil]
  · rw [h.toSound.getMaxOffset h.starts hnil, Nat.zero_add, ConsumeQueue.entries]

lemma Dense.getMaxOffsetInQuque (h : Dense cq) :
    cq.getMaxOffsetInQuque = cq.entries.length := by
  rw [ConsumeQueue.getMaxOffsetInQuque, h.getMaxOffset, Nat.mul_div_cancel_left _ h.pos]

lemma Dense.maxPhysicOffset (h : Dense cq) (hpos : 0 ≤ u.offset.toInt)
    (hlt : ∀ v ∈ cq.entries, v.offset.toInt < u.offset.toInt) :
    cq.maxPhysicOffset.toInt < u.offset.toInt := by
  rw [h.max_eq]
  cases hlast : cq.entries.getLast? with
  | none =>
    change (-1 : ℤ) < _
    omega
  | some v => exact hlt v (List.mem_of_getLast? hlast)

/-! ### Putting the next entry -/

section Put

/-- The file for the next entry, which begins a queue only when there is no entry. -/
lemma Dense.opened (h : Dense cq) {fresh : Option (List CQUnit)} {f : MapedFile (List CQUnit)}
    {q : MapedFileQueue (List CQUnit)}
    (hq : cq.mapedFileQueue.getLastMapedFile (cq.entries.length * CQStoreUnitSize) fresh =
      (some f, q)) :
    StartsAt CQStoreUnitSize 0 q ∧ (∀ g ∈ q.mapedFiles, g.firstCreateInQueue →
      g.fileFromOffset = 0) ∧ ¬ ConsumeQueue.isPreBlank f cq.entries.length := by
  have hentries : cq.mapedFileQueue.mapedFiles = [] → cq.entries.length = 0 := fun hnil => by
    simp [ConsumeQueue.entries, units, hnil]
  refine ⟨h.starts.getLastMapedFile h.chained (fun hnil => ?_) hq, ?_, ?_⟩
  · rw [hentries hnil, Nat.zero_mul, Nat.zero_sub, Nat.mul_zero]
  all_goals
    obtain ⟨hlast, -, -, rfl | ⟨-, hfiles, hzero, -, hcreate, hfirst, -⟩⟩ :=
      getLastMapedFile_cases h.chained hq
  · exact h.first
  · intro g hg hcreated
    rw [hfiles] at hg
    rcases List.mem_append.mp hg with hg | hg
    · exact h.first g hg hcreated
    · rw [List.mem_singleton.mp hg] at hcreated ⊢
      rw [hfirst, List.isEmpty_iff] at hcreated
      rw [MapedFileQueue.createOffset, hcreated, hentries hcreated] at hcreate
      simpa using hcreate.symm
  · rintro ⟨hcreated, hne, hwrote⟩
    -- an empty file at the beginning is the whole queue
    have hmax := h.getMaxOffset
    rw [MapedFileQueue.getMaxOffset, hlast] at hmax
    have hfrom := h.first f (List.mem_of_getLast? hlast) hcreated
    simp only [hfrom, hwrote, CQStoreUnitSize] at hmax
    omega
  · rintro ⟨hcreated, hne, -⟩
    rw [hfirst, List.isEmpty_iff] at hcreated
    exact hne (hentries hcreated)

/-- **The entry whose number comes next**: it is put behind the others, or no file can be had
for it. -/
lemma Dense.put (h : Dense cq) (hu : u.isValid) (hlt : cq.maxPhysicOffset.toInt < u.offset.toInt)
    (created : Bool) :
    (∃ cq', cq.putMessagePostionInfo created u cq.entries.length = (cq', true) ∧ Dense cq' ∧
      cq'.entries = cq.entries ++ [u]) ∨
    created = false ∧ cq.putMessagePostionInfo created u cq.entries.length = (cq, false) := by
  unfold ConsumeQueue.putMessagePostionInfo
  rw [if_neg (by omega)]
  simp only
  split
  · next q hq =>
    obtain ⟨rfl, hfresh⟩ := getLastMapedFile_none hq
    refine .inr ⟨?_, rfl⟩
    cases created with
    | false => rfl
    | true => simp at hfresh
  · next f q hq =>
    obtain ⟨hsound, hunits, hsize, hlast, hroom⟩ := h.toSound.getLastMapedFile
      (fun mem hmem => by
        split at hmem
        · obtain rfl := Option.mem_some_iff.mp hmem
          exact ⟨length_newUnits h.dvd, invalid_newUnits⟩
        · simp at hmem) hq
    obtain ⟨hstarts, hfirst, hblank⟩ := h.opened hq
    rw [← hsize] at hroom ⊢
    have hfilled : ConsumeQueue.preFilled q.mapedFileSize f cq.entries.length = f := if_neg hblank
    obtain ⟨f', happ, hsound', hunits', hfrom, -⟩ := hsound.appendUnit hlast hroom hu
    rw [hfilled, happ, if_neg hblank]
    have hentries : units CQStoreUnitSize (q.setLast f') = cq.entries ++ [u] := by
      rw [hunits', hunits]
      rfl
    refine .inl ⟨_, rfl, ⟨⟨hsound', ?_⟩, hstarts.setLast hlast hfrom, ?_, h.min_eq⟩, hentries⟩
    · rw [ConsumeQueue.entries, hentries, List.getLast?_concat]
      rfl
    · refine forall_mem_setLast hfirst fun hcreated => ?_
      have hgrown := appendUnit_some hsound.pos (hsound.mapped f (List.mem_of_getLast? hlast))
        (hsound.wrote f (List.mem_of_getLast? hlast)) hroom u
      obtain ⟨f'', happ', -, hf''⟩ := hgrown
      obtain rfl : f' = f'' := Option.some.inj (happ.symm.trans happ')
      rw [hfrom]
      rw [hf''] at hcreated
      exact hfirst f (List.mem_of_getLast? hlast) hcreated

/-- The tries together. -/
lemma Dense.putRetrying (h : Dense cq) (hu : u.isValid)
    (hlt : cq.maxPhysicOffset.toInt < u.offset.toInt) {created : ℕ → Bool} {n : ℕ}
    (hfile : ∃ i < n, created i) :
    ∃ cq', ConsumeQueue.putRetrying created u cq.entries.length n cq = (cq', true) ∧ Dense cq' ∧
      cq'.entries = cq.entries ++ [u] := by
  induction n with
  | zero =>
    obtain ⟨i, hi, -⟩ := hfile
    omega
  | succ n ih =>
    rw [ConsumeQueue.putRetrying]
    rcases h.put hu hlt (created n) with ⟨cq', hput, hrest⟩ | ⟨hcreated, hput⟩
    · rw [hput]
      exact ⟨cq', rfl, hrest⟩
    · rw [hput]
      obtain ⟨i, hi, hci⟩ := hfile
      refine ih ⟨i, ?_, hci⟩
      rcases Nat.lt_succ_iff_lt_or_eq.mp hi with hi | rfl
      · exact hi
      · rw [hci] at hcreated
        exact absurd hcreated (by simp)

end Put

/-! ### A restart -/

section Restart

/-- The minimum of a queue that begins with the log. -/
lemma Dense.correctMinOffset (h : Dense cq) {phyMinOffset : ℤ}
    (hmin : ∀ v ∈ cq.entries, phyMinOffset ≤ v.offset.toInt) :
    cq.correctMinOffset phyMinOffset = cq := by
  unfold ConsumeQueue.correctMinOffset
  split
  · rfl
  · next f hf =>
    split
    · split
      · rfl
      · next i hi =>
        -- the first entry does not lie before the log
        obtain ⟨hlt, hp, hbefore⟩ := List.findIdx?_eq_some_iff_getElem.mp hi
        have hzero : i = 0 := by
          by_contra hne
          have h0 : 0 < (unitsOf CQStoreUnitSize f).length := by omega
          have hmem : (unitsOf CQStoreUnitSize f)[0] ∈ cq.entries :=
            List.mem_flatMap.mpr ⟨f, List.mem_of_mem_head? hf, List.getElem_mem h0⟩
          have hnot := hbefore 0 (Nat.pos_of_ne_zero hne)
          simp only [decide_eq_true_eq] at hnot
          exact hnot (hmin _ hmem)
        have hfrom := h.starts f hf
        have hmineq := h.min_eq
        rw [hzero, hfrom]
        cases cq
        simp only [ConsumeQueue.mk.injEq, true_and]
        simpa using hmineq.symm
    · rfl

/-- **A restart.** The queue is loaded, recovered, and has its entries. -/
lemma Dense.restart (h : Dense cq) {phyMinOffset : ℤ}
    (hmin : ∀ v ∈ cq.entries, phyMinOffset ≤ v.offset.toInt) :
    Dense (cq.load.recover.correctMinOffset phyMinOffset) ∧
      (cq.load.recover.correctMinOffset phyMinOffset).entries = cq.entries := by
  obtain ⟨htracked, hentries, -, -⟩ := h.toTracked.restart
  obtain ⟨hfiles, -, -⟩ := recoverUnits_reload h.toWhole h.toClean
  obtain ⟨-, -, -, hext, -⟩ := h.toSound.recover
  have hdense : Dense cq.load.recover := by
    refine ⟨htracked, h.starts.of_extents hext, fun f hf hcreated => ?_, rfl⟩
    change f ∈ (recoverUnits CQStoreUnitSize CQUnit.isValid (reload cq.mapedFileQueue)).1.mapedFiles
      at hf
    rw [hfiles] at hf
    obtain ⟨f₀, -, rfl⟩ := List.mem_map.mp hf
    exact absurd hcreated (by simp [resume, MapedFileQueue.loadFile])
  rw [hdense.correctMinOffset fun v hv => hmin v (hentries ▸ hv)]
  exact ⟨hdense, hentries⟩

end Restart

end CloudMQ.DenseQueues
