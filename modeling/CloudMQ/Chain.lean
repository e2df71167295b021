import CloudMQ.Extents
import CloudMQ.Runs
import CloudMQ.Segment
import Mathlib.Data.List.TakeWhile

/-!
The segment chain: whatever is done to a queue of segment files, each file starts where the
one before it ends, and every file but the last is full. The lookup by index arithmetic then
finds the file an offset lies in.

One operation can break the chain. `deleteExpiredFileByTime` passes over a file that is not
expired and goes on to the next, so it may take a file out of the middle of the list.
-/

namespace CloudMQ.Chain

open CloudMQ.Extents CloudMQ.Runs CloudMQ.Segment

variable {Mem : Type}

def extent (f : MapedFile Mem) : Extent := (f.fileFromOffset, f.wrotePostion)

def extents (q : MapedFileQueue Mem) : List Extent := q.mapedFiles.map extent

/-- The files form a chain. -/
def Chained (q : MapedFileQueue Mem) : Prop := Contiguous q.mapedFileSize (extents q)

lemma getMaxOffset_eq (q : MapedFileQueue Mem) : q.getMaxOffset = endOf (extents q) := by
  unfold MapedFileQueue.getMaxOffset endOf extents
  rw [List.getLast?_map]
  cases q.mapedFiles.getLast? with
  | none => rfl
  | some f => rfl

/-! ### Positions -/

section Positions

variable {q : MapedFileQueue Mem}

lemma start_of_index (h : Chained q) {first f : MapedFile Mem} {rest : List (MapedFile Mem)}
    (hfiles : q.mapedFiles = first :: rest) {i : ℕ} (hi : q.mapedFiles[i]? = some f) :
    f.fileFromOffset = first.fileFromOffset + i * q.mapedFileSize := by
  have h' := h
  rw [Chained, extents, hfiles, List.map_cons] at h'
  have hi' : (extent first :: rest.map extent)[i]? = some (extent f) := by
    rw [← List.map_cons, ← hfiles, List.getElem?_map, hi]
    rfl
  exact h'.start_cons hi'

lemma end_le_start (h : Chained q) {f g : MapedFile Mem} {i j : ℕ} (hij : i < j)
    (hf : q.mapedFiles[i]? = some f) (hg : q.mapedFiles[j]? = some g) :
    f.fileFromOffset + q.mapedFileSize ≤ g.fileFromOffset := by
  cases hfiles : q.mapedFiles with
  | nil => simp [hfiles] at hf
  | cons first rest =>
    rw [start_of_index h hfiles hf, start_of_index h hfiles hg, Nat.add_assoc, ← Nat.succ_mul]
    exact Nat.add_le_add_left (Nat.mul_le_mul_right _ hij) _

/-- The files in front of the last one are full. -/
lemma full_of_mem_dropLast (h : Chained q) {f : MapedFile Mem} (hf : f ∈ q.mapedFiles.dropLast) :
    f.wrotePostion = q.mapedFileSize := by
  obtain ⟨i, hi⟩ := List.getElem?_of_mem hf
  have hlt := (List.getElem?_eq_some_iff.mp hi).1
  rw [List.length_dropLast] at hlt
  rw [List.getElem?_dropLast, if_pos hlt] at hi
  refine h.full (i := i) (e := extent f) ?_ ?_
  · rw [extents, List.getElem?_map, hi]
    rfl
  · rw [extents, List.length_map]
    omega

lemma wrote_le (h : Chained q) {f : MapedFile Mem} (hf : f ∈ q.mapedFiles) :
    f.wrotePostion ≤ q.mapedFileSize :=
  h.used_le (extent f) (List.mem_map_of_mem hf)

/-- No file reaches beyond the end of the queue. -/
lemma wrote_le_max (h : Chained q) {f : MapedFile Mem} (hf : f ∈ q.mapedFiles) :
    f.fileFromOffset + f.wrotePostion ≤ q.getMaxOffset := by
  obtain ⟨i, hi⟩ := List.getElem?_of_mem hf
  obtain ⟨last, hlast⟩ : ∃ last, q.mapedFiles.getLast? = some last :=
    ⟨_, List.getLast?_eq_some_getLast (List.ne_nil_of_mem hf)⟩
  have hmax : q.getMaxOffset = last.fileFromOffset + last.wrotePostion := by
    rw [MapedFileQueue.getMaxOffset, hlast]
  have hidx : q.mapedFiles[q.mapedFiles.length - 1]? = some last := by
    rw [← hlast, List.getLast?_eq_getElem?]
  have hlt : i < q.mapedFiles.length := (List.getElem?_eq_some_iff.mp hi).1
  rcases Nat.lt_or_ge i (q.mapedFiles.length - 1) with h1 | h1
  · have h2 := end_le_start h h1 hi hidx
    have h3 := wrote_le h hf
    omega
  · have h2 : i = q.mapedFiles.length - 1 := by omega
    rw [h2, hidx, Option.some.injEq] at hi
    rw [hmax, hi]

/-- The end of the last file, full or not. -/
lemma max_le_end (h : Chained q) {first : MapedFile Mem} {rest : List (MapedFile Mem)}
    (hfiles : q.mapedFiles = first :: rest) :
    q.getMaxOffset ≤ first.fileFromOffset + q.mapedFiles.length * q.mapedFileSize := by
  have h' := h
  rw [Chained, extents, hfiles, List.map_cons] at h'
  obtain ⟨u, hu, hend⟩ := h'.endOf_cons
  rw [getMaxOffset_eq, extents, hfiles, List.map_cons, hend, List.length_map, List.length_cons,
    Nat.succ_mul, extent]
  omega

/-- The lookup finds the file an offset lies in. -/
lemma find_of_mem (h : Chained q) {f : MapedFile Mem} (hf : f ∈ q.mapedFiles) {o : ℕ}
    (hle : f.fileFromOffset ≤ o) (hlt : o < f.fileFromOffset + q.mapedFileSize)
    (returnFirst : Bool) : q.findMapedFileByOffset o returnFirst = some f := by
  obtain ⟨i, hi⟩ := List.getElem?_of_mem hf
  unfold MapedFileQueue.findMapedFileByOffset
  cases hfiles : q.mapedFiles with
  | nil => simp [hfiles] at hf
  | cons first rest =>
    have hstart := start_of_index h hfiles hi
    have hlen := (List.getElem?_eq_some_iff.mp hi).1
    obtain ⟨k, hk⟩ := h.aligned (extent first) (List.mem_map_of_mem (by simp [hfiles]))
    change first.fileFromOffset = q.mapedFileSize * k at hk
    have hfirst : first.fileFromOffset / q.mapedFileSize = k := by
      rw [hk, Nat.mul_div_cancel_left _ q.size_pos]
    have hdiv : o / q.mapedFileSize = k + i := by
      have h1 : f.fileFromOffset = (k + i) * q.mapedFileSize := by rw [hstart, hk]; ring
      refine Nat.div_eq_of_lt_le ?_ ?_
      · omega
      · rw [Nat.succ_mul]; omega
    have hindex : q.findIndex first o = i := by
      rw [MapedFileQueue.findIndex, hfirst, hdiv]; omega
    rw [hfiles] at hi hlen
    simp only [hindex]
    rw [if_pos ⟨by omega, by omega⟩, Int.toNat_natCast]
    exact hi

lemma mod_eq_sub (hc : Chained q) {f : MapedFile Mem} {o : ℕ} (hf : f ∈ q.mapedFiles)
    (hle : f.fileFromOffset ≤ o) (hlt : o < f.fileFromOffset + q.mapedFileSize) :
    o % q.mapedFileSize = o - f.fileFromOffset := by
  obtain ⟨k, hk⟩ := hc.aligned (extent f) (List.mem_map_of_mem hf)
  change f.fileFromOffset = _ at hk
  obtain ⟨i, rfl⟩ := Nat.exists_eq_add_of_le hle
  rw [Nat.add_sub_cancel_left, hk, Nat.mul_add_mod, Nat.mod_eq_of_lt (by omega)]

lemma mem_of_findMapedFileByOffset {f : MapedFile Mem} {o : ℕ} {returnFirst : Bool}
    (h : q.findMapedFileByOffset o returnFirst = some f) : f ∈ q.mapedFiles := by
  unfold MapedFileQueue.findMapedFileByOffset at h
  split at h
  · exact absurd h (by simp)
  · next first rest hfiles =>
    simp only at h
    rw [hfiles]
    split_ifs at h
    · exact List.mem_of_getElem? h
    · rw [← Option.some.inj h]
      exact List.mem_cons_self

/-- What the lookup finds is a file that has the offset. -/
lemma mem_of_find (hc : Chained q) {f : MapedFile Mem} {o : ℕ}
    (h : q.findMapedFileByOffset o false = some f) :
    f ∈ q.mapedFiles ∧ f.fileFromOffset ≤ o ∧ o < f.fileFromOffset + q.mapedFileSize := by
  unfold MapedFileQueue.findMapedFileByOffset at h
  cases hfiles : q.mapedFiles with
  | nil => simp [hfiles] at h
  | cons first rest =>
    simp only [hfiles] at h
    split at h
    · next hidx =>
      rw [← hfiles] at h
      obtain ⟨k, hk⟩ := hc.aligned (extent first) (List.mem_map_of_mem (by simp [hfiles]))
      change first.fileFromOffset = _ at hk
      have hstart := start_of_index hc hfiles h
      have hpos := q.size_pos
      have hdiv := Nat.div_add_mod o q.mapedFileSize
      have hmod := Nat.mod_lt o hpos
      have hidx' : 0 ≤ q.findIndex first o := hidx.1
      unfold MapedFileQueue.findIndex at hidx' h hstart
      rw [hk, Nat.mul_div_cancel_left _ hpos] at hidx' hstart
      obtain ⟨i, hi⟩ := Nat.exists_eq_add_of_le (show k ≤ o / q.mapedFileSize by omega)
      have hi' : (((o / q.mapedFileSize : ℕ) : ℤ) - (k : ℤ)).toNat = i := by omega
      rw [hi'] at hstart
      have hfrom : f.fileFromOffset = q.mapedFileSize * (o / q.mapedFileSize) := by
        rw [hstart, hi]; ring
      refine ⟨hfiles ▸ List.mem_of_getElem? h, ?_, ?_⟩
      · omega
      · omega
    · exact absurd h (by simp)

/-- A file that is not full is the last one. -/
lemma max_of_not_full (hc : Chained q) {f : MapedFile Mem} (hf : f ∈ q.mapedFiles)
    (h : f.wrotePostion ≠ q.mapedFileSize) :
    q.getMaxOffset = f.fileFromOffset + f.wrotePostion := by
  obtain ⟨i, hi⟩ := List.getElem?_of_mem hf
  have hlast : ¬ i + 1 < q.mapedFiles.length := fun hlt =>
    h (hc.full (i := i) (e := extent f) (by simp [extents, hi]) (by simpa [extents] using hlt))
  have hi' : i = q.mapedFiles.length - 1 := by
    have := (List.getElem?_eq_some_iff.mp hi).1
    omega
  rw [hi', ← List.getLast?_eq_getElem?] at hi
  rw [MapedFileQueue.getMaxOffset, hi]

/-- The file that is written to has room, and a new one is empty and follows a full one. -/
lemma getLastMapedFile_cases (hc : Chained q) {q' : MapedFileQueue Mem} {startOffset : ℕ}
    {fresh : Option Mem} {f : MapedFile Mem}
    (h : q.getLastMapedFile startOffset fresh = (some f, q')) :
    q'.mapedFiles.getLast? = some f ∧ q'.mapedFileSize = q.mapedFileSize ∧
      f.wrotePostion < q.mapedFileSize ∧
      (q' = q ∨ fresh = some f.mappedByteBuffer ∧ q'.mapedFiles = q.mapedFiles ++ [f] ∧
        f.wrotePostion = 0 ∧ f.available = true ∧
        q.createOffset startOffset = some f.fileFromOffset ∧
        f.firstCreateInQueue = q.mapedFiles.isEmpty ∧
        ∀ last ∈ q.mapedFiles.getLast?, last.wrotePostion = q.mapedFileSize) := by
  unfold MapedFileQueue.getLastMapedFile at h
  cases hcr : q.createOffset startOffset with
  | none =>
    simp only [hcr, Prod.mk.injEq] at h
    obtain ⟨hlast, rfl⟩ := h
    have hle := wrote_le hc (List.mem_of_getLast? hlast)
    simp only [MapedFileQueue.createOffset, hlast] at hcr
    split at hcr
    · exact absurd hcr (by simp)
    · next hfull =>
      simp only [MapedFile.isFull, decide_eq_true_eq] at hfull
      exact ⟨hlast, rfl, lt_of_le_of_ne hle hfull, .inl rfl⟩
  | some createOffset =>
    cases fresh with
    | none => simp [hcr] at h
    | some mem =>
      simp only [hcr, Prod.mk.injEq, Option.some.injEq] at h
      obtain ⟨rfl, rfl⟩ := h
      refine ⟨by simp, rfl, q.size_pos, .inr ⟨rfl, rfl, rfl, rfl, rfl, rfl, fun last hlast => ?_⟩⟩
      simp only [Option.mem_def] at hlast
      simp only [MapedFileQueue.createOffset, hlast] at hcr
      split at hcr
      · next hfull => simpa [MapedFile.isFull] using hfull
      · exact absurd hcr (by simp)

lemma mapedFileSize_getLastMapedFile (startOffset : ℕ) (fresh : Option Mem) :
    (q.getLastMapedFile startOffset fresh).2.mapedFileSize = q.mapedFileSize := by
  unfold MapedFileQueue.getLastMapedFile
  split
  · rfl
  · split
    · rfl
    · rfl

/-- Without a file the queue is as before, and none could be created. -/
lemma getLastMapedFile_none {q' : MapedFileQueue Mem} {startOffset : ℕ} {fresh : Option Mem}
    (h : q.getLastMapedFile startOffset fresh = (none, q')) : q' = q ∧ fresh = none := by
  unfold MapedFileQueue.getLastMapedFile at h
  cases hcr : q.createOffset startOffset with
  | none =>
    simp only [hcr, Prod.mk.injEq] at h
    rw [MapedFileQueue.createOffset, h.1] at hcr
    exact absurd hcr (by simp)
  | some createOffset =>
    cases fresh with
    | none =>
      simp only [hcr, Prod.mk.injEq, true_and] at h
      exact ⟨h.symm, rfl⟩
    | some mem => simp [hcr] at h

end Positions

/-! ### One operation -/

section Operations

variable {q : MapedFileQueue Mem}

/-- What holds of the old files and of the new last one, holds of all. -/
lemma forall_mem_setLast {P : MapedFile Mem → Prop} {f : MapedFile Mem}
    (hold : ∀ g ∈ q.mapedFiles, P g) (hnew : P f) : ∀ g ∈ (q.setLast f).mapedFiles, P g := by
  intro g hg
  rcases List.mem_append.mp hg with hg | hg
  · exact hold g (List.dropLast_subset _ hg)
  · rw [List.mem_singleton.mp hg]
    exact hnew

lemma extents_setLast (f : MapedFile Mem) :
    extents (q.setLast f) = (extents q).dropLast ++ [extent f] := by
  simp [extents, MapedFileQueue.setLast, List.map_dropLast]

lemma extents_eq_snoc {last : MapedFile Mem} (hlast : q.mapedFiles.getLast? = some last) :
    extents q = (extents q).dropLast ++ [extent last] := by
  have : (extents q).getLast? = some (extent last) := by
    rw [extents, List.getLast?_map, hlast]; rfl
  exact (List.dropLast_append_getLast? _ this).symm

/-- The last file may be filled further. -/
lemma Chained.setLast {last f : MapedFile Mem} (h : Chained q)
    (hlast : q.mapedFiles.getLast? = some last) (hfrom : f.fileFromOffset = last.fileFromOffset)
    (hfill : f.wrotePostion ≤ q.mapedFileSize) : Chained (q.setLast f) := by
  have h' : Contiguous q.mapedFileSize ((extents q).dropLast ++ [extent last]) := by
    rw [← extents_eq_snoc hlast]; exact h
  change Contiguous q.mapedFileSize _
  rw [extents_setLast, extent, hfrom]
  exact h'.setLast hfill

lemma Chained.getLastMapedFile (h : Chained q) (startOffset : ℕ) (fresh : Option Mem) :
    Chained (q.getLastMapedFile startOffset fresh).2 := by
  unfold MapedFileQueue.getLastMapedFile
  split
  · exact h
  · next createOffset hc =>
    cases fresh with
    | none => exact h
    | some mem =>
      simp only [Chained, extents, List.map_append, List.map_cons, List.map_nil]
      unfold MapedFileQueue.createOffset at hc
      cases hlast : q.mapedFiles.getLast? with
      | none =>
        rw [hlast] at hc
        simp only [Option.some.injEq] at hc
        refine Contiguous.snoc h (fun e he => ?_) ?_ (Nat.zero_le _)
        · rw [List.getLast?_map, hlast] at he; simp at he
        · simp only [extent, ← hc]
          exact Nat.dvd_sub_mod startOffset
      | some last =>
        rw [hlast] at hc
        simp only at hc
        split at hc
        · next hfull =>
          simp only [Option.some.injEq] at hc
          have hmem : extent last ∈ extents q :=
            List.mem_map_of_mem (List.mem_of_getLast? hlast)
          refine Contiguous.snoc h (fun e he => ?_) ?_ (Nat.zero_le _)
          · rw [List.getLast?_map, hlast] at he
            simp only [Option.map_some, Option.mem_some_iff] at he
            rw [← he]
            exact ⟨by simpa [MapedFile.isFull, extent] using hfull, hc.symm⟩
          · simp only [extent, ← hc]
            exact (h.aligned _ hmem).add (dvd_refl _)
        · exact absurd hc (by simp)

lemma Chained.appendLast (h : Chained q) {n : ℕ} {mem : Mem} {q' : MapedFileQueue Mem}
    (ha : q.appendLast n mem = some q') : Chained q' := by
  unfold MapedFileQueue.appendLast at ha
  cases hlast : q.mapedFiles.getLast? with
  | none => rw [hlast] at ha; exact absurd ha (by simp)
  | some last =>
    rw [hlast] at ha
    obtain ⟨f, hf, rfl⟩ := Option.map_eq_some_iff.mp ha
    unfold MapedFile.append at hf
    split at hf
    · next hle =>
      simp only [Option.some.injEq] at hf
      subst hf
      exact h.setLast hlast rfl hle
    · exact absurd hf (by simp)

lemma extents_truncateDirtyFiles (offset : ℕ) :
    extents (q.truncateDirtyFiles offset) =
      (extents q).filterMap (truncate q.mapedFileSize offset) := by
  simp only [extents, MapedFileQueue.truncateDirtyFiles, List.map_filterMap, List.filterMap_map]
  congr 1
  funext f
  simp only [MapedFileQueue.truncateFile, truncate, extent, Function.comp]
  by_cases h1 : offset < f.fileFromOffset + q.mapedFileSize
  · by_cases h2 : f.fileFromOffset ≤ offset
    · simp [h1, h2, extent]
    · simp [h1, h2]
  · simp [h1, extent]

lemma Chained.truncateDirtyFiles (h : Chained q) (offset : ℕ) :
    Chained (q.truncateDirtyFiles offset) := by
  change Contiguous q.mapedFileSize _
  rw [extents_truncateDirtyFiles]
  exact (Contiguous.truncate_contiguous q.size_pos offset h).1

lemma Chained.deleteLastMapedFile (h : Chained q) : Chained q.deleteLastMapedFile := by
  change Contiguous q.mapedFileSize (q.mapedFiles.dropLast.map extent)
  rw [List.map_dropLast]
  exact h.dropLast

/-- Files that go from the head leave a chain. -/
lemma Chained.of_suffix (h : Chained q) {l : List (MapedFile Mem)}
    (hl : l.map extent <:+ extents q) : Chained { q with mapedFiles := l } :=
  h.part hl.isInfix

lemma deleteByOffset_suffix (size unitSize : ℕ) (lastUnit : Mem → ℤ) (offset : ℤ)
    (destroys : MapedFile Mem → Bool) (l : List (MapedFile Mem)) :
    (MapedFileQueue.deleteByOffset size unitSize lastUnit offset destroys l).map extent <:+
      l.map extent := by
  fun_induction MapedFileQueue.deleteByOffset size unitSize lastUnit offset destroys l with
  | case1 => exact List.suffix_rfl
  | case2 => exact List.suffix_rfl
  | case3 f g rest _ _ _ ih => exact ih.trans (List.suffix_cons _ _)
  | case4 => exact List.suffix_rfl
  | case5 => exact List.suffix_rfl
  | case6 => exact List.suffix_rfl

lemma Chained.retryDeleteFirstFile (h : Chained q) (destroys : Bool) :
    Chained (q.retryDeleteFirstFile destroys) := by
  unfold MapedFileQueue.retryDeleteFirstFile
  split
  · exact h
  · next f rest hq =>
    split
    · refine h.of_suffix ?_
      rw [extents, hq]
      exact List.suffix_cons _ _
    · exact h

lemma extent_commit (size : ℕ) (f : MapedFile Mem) (flushLeastPages : ℤ) :
    extent (f.commit size flushLeastPages) = extent f := by
  unfold MapedFile.commit
  split
  · split <;> rfl
  · rfl

lemma extents_commit (flushLeastPages : ℤ) : extents (q.commit flushLeastPages) = extents q := by
  unfold MapedFileQueue.commit
  split
  · rfl
  · next f hf =>
    rw [extents, List.map_set, extent_commit]
    refine List.ext_getElem? fun i => ?_
    rw [List.getElem?_set]
    split
    · next hi =>
      subst hi
      rw [extents, List.getElem?_map, hf]
      have : q.commitIndex < q.mapedFiles.length := (List.getElem?_eq_some_iff.mp hf).1
      simp [this]
    · rfl

@[simp] lemma mapedFileSize_commit (flushLeastPages : ℤ) :
    (q.commit flushLeastPages).mapedFileSize = q.mapedFileSize := by
  unfold MapedFileQueue.commit
  split <;> rfl

lemma Chained.commit (h : Chained q) (flushLeastPages : ℤ) :
    Chained (q.commit flushLeastPages) := by
  rw [Chained, extents_commit, mapedFileSize_commit]
  exact h

end Operations

/-! ### Deletion by time -/

/-- Nothing goes from the middle of the list: once the loop is past the expired files at the
head, the first expired file behind one that is not expired, if there is one, cannot be
destroyed. -/
def NoGap (expired destroys : MapedFile Mem → Bool) (files : List (MapedFile Mem)) : Prop :=
  let old := files.dropLast
  (∀ f ∈ old.takeWhile expired, destroys f) →
    (old.takeWhile expired).length < DeleteFilesBatchMax →
      ∀ g ∈ (old.dropWhile expired).find? expired, destroys g = false

section DeleteByTime

variable {expired destroys : MapedFile Mem → Bool}

/-- If the first expired file is not destroyed, no file goes. -/
lemma extents_deleteByTime_of_find (n : ℕ) (l : List (MapedFile Mem))
    (h : ∀ g ∈ l.dropLast.find? expired, destroys g = false) :
    (MapedFileQueue.deleteByTime expired destroys n l).map extent = l.map extent := by
  fun_induction MapedFileQueue.deleteByTime expired destroys n l with
  | case1 => rfl
  | case2 => rfl
  | case3 n f g rest he hd _ => simp [he, hd] at h
  | case4 n f g rest he hd _ _ => simp [he, hd] at h
  | case5 n f g rest he hd => rfl
  | case6 n f g rest he ih =>
    rw [List.dropLast_cons_cons, List.find?_cons_of_neg he] at h
    rw [List.map_cons, ih h]
    rfl

/-- Without a gap the files that go are the first ones. -/
lemma deleteByTime_suffix (n : ℕ) (hn : n < DeleteFilesBatchMax) (l : List (MapedFile Mem))
    (h : (∀ f ∈ l.dropLast.takeWhile expired, destroys f) →
      n + (l.dropLast.takeWhile expired).length < DeleteFilesBatchMax →
        ∀ g ∈ (l.dropLast.dropWhile expired).find? expired, destroys g = false) :
    (MapedFileQueue.deleteByTime expired destroys n l).map extent <:+ l.map extent := by
  fun_induction MapedFileQueue.deleteByTime expired destroys n l with
  | case1 => exact List.suffix_rfl
  | case2 => exact List.suffix_rfl
  | case3 n f g rest he hd _ => exact List.suffix_cons _ _
  | case4 n f g rest he hd hmax ih =>
    refine (ih (by omega) fun h1 h2 => ?_).trans (List.suffix_cons _ _)
    simp only [List.dropLast_cons_cons, List.takeWhile_cons, he, List.dropWhile_cons, if_true,
      List.mem_cons, forall_eq_or_imp, hd, List.length_cons] at h
    exact h ⟨trivial, h1⟩ (by omega)
  | case5 => exact List.suffix_rfl
  | case6 n f g rest he ih =>
    -- this file stays, so nothing behind it goes
    have hfind : ∀ x ∈ (f :: g :: rest).dropLast.find? expired, destroys x = false := by
      rw [List.dropLast_cons_cons, List.takeWhile_cons_of_neg he,
        List.dropWhile_cons_of_neg he] at h
      exact h (by simp) hn
    have := extents_deleteByTime_of_find n (f :: g :: rest) hfind
    rw [MapedFileQueue.deleteByTime, if_neg he] at this
    exact this ▸ List.suffix_rfl

end DeleteByTime

/-! ### Runs -/

/-- What can be done to a queue, with what the operating system answers. -/
inductive Op (Mem : Type)
  | getLastMapedFile (startOffset : ℕ) (fresh : Option Mem)
  | append (n : ℕ) (mem : Mem)
  | truncateDirtyFiles (offset : ℕ)
  | deleteLastMapedFile
  | deleteExpiredFileByTime (expiredTime : ℤ) (cleanImmediately : Bool)
      (lastModified now : MapedFile Mem → ℤ) (destroys : MapedFile Mem → Bool)
  | deleteExpiredFileByOffset (offset : ℤ) (unitSize : ℕ) (lastUnit : Mem → ℤ)
      (destroys : MapedFile Mem → Bool)
  | retryDeleteFirstFile (destroys : Bool)
  | commit (flushLeastPages : ℤ)

/-- An append that does not fit, or finds no file, changes nothing. -/
def step (q : MapedFileQueue Mem) : Op Mem → Option (MapedFileQueue Mem)
  | .getLastMapedFile startOffset fresh => some (q.getLastMapedFile startOffset fresh).2
  | .append n mem => some ((q.appendLast n mem).getD q)
  | .truncateDirtyFiles offset => some (q.truncateDirtyFiles offset)
  | .deleteLastMapedFile => some q.deleteLastMapedFile
  | .deleteExpiredFileByTime expiredTime cleanImmediately lastModified now destroys =>
    some (q.deleteExpiredFileByTime expiredTime cleanImmediately lastModified now destroys)
  | .deleteExpiredFileByOffset offset unitSize lastUnit destroys =>
    some (q.deleteExpiredFileByOffset offset unitSize lastUnit destroys)
  | .retryDeleteFirstFile destroys => some (q.retryDeleteFirstFile destroys)
  | .commit flushLeastPages => some (q.commit flushLeastPages)

/-- Expired files are taken from the head only. -/
def HeadOnly (q : MapedFileQueue Mem) : Op Mem → Prop
  | .deleteExpiredFileByTime expiredTime cleanImmediately lastModified now destroys =>
    NoGap (MapedFileQueue.isExpired expiredTime cleanImmediately lastModified now) destroys
      q.mapedFiles
  | _ => True

lemma pos_1024 : 0 < 1024 := by decide

/-- A queue before `load`. -/
def empty (size : ℕ) (hpos : 0 < size) : MapedFileQueue Mem where
  mapedFileSize := size
  size_pos := hpos
  mapedFiles := []
  committedWhere := 0
  storeTimestamp := 0

/-- The start offsets in the directory are multiples of the file size without a gap. -/
def Regular (size : ℕ) (dir : List (ℕ × ℕ × Mem)) : Prop :=
  Contiguous size (dir.map fun e => (e.1, size))

lemma chained_load {size : ℕ} (hpos : 0 < size) {dir : List (ℕ × ℕ × Mem)}
    (h : Regular size dir) : Chained ((empty size hpos).load dir) := by
  refine h.part (List.IsPrefix.isInfix ?_)
  have : extents ((empty size hpos).load dir) =
      (dir.takeWhile fun e => e.2.1 = size).map fun e => (e.1, size) := by
    simp only [extents, MapedFileQueue.load, empty, List.nil_append, List.map_map]
    rfl
  rw [this]
  exact (List.takeWhile_prefix _).map _

/-- The files are mapped again, each as a full one. -/
def reload (q : MapedFileQueue Mem) : MapedFileQueue Mem :=
  (empty q.mapedFileSize q.size_pos).load
    (q.mapedFiles.map fun f => (f.fileFromOffset, q.mapedFileSize, f.mappedByteBuffer))

lemma mapedFiles_reload (q : MapedFileQueue Mem) :
    (reload q).mapedFiles = q.mapedFiles.map fun f =>
      MapedFileQueue.loadFile q.mapedFileSize f.fileFromOffset f.mappedByteBuffer := by
  have hall : ∀ e ∈ q.mapedFiles.map fun f =>
      (f.fileFromOffset, q.mapedFileSize, f.mappedByteBuffer),
      decide (e.2.1 = q.mapedFileSize) := by
    intro e he
    obtain ⟨f, -, rfl⟩ := List.mem_map.mp he
    simp
  change List.map (fun e : ℕ × ℕ × Mem => MapedFileQueue.loadFile q.mapedFileSize e.1 e.2.2)
    (List.takeWhile (fun e : ℕ × ℕ × Mem => decide (e.2.1 = q.mapedFileSize)) _) = _
  rw [List.takeWhile_eq_self_iff.mpr hall, List.map_map]
  rfl

lemma chained_reload {q : MapedFileQueue Mem} (h : Chained q) : Chained (reload q) := by
  refine chained_load q.size_pos ?_
  have hfill := h.fill
  rw [extents, List.map_map] at hfill
  rw [Regular, List.map_map]
  exact hfill

lemma step_chained {q q' : MapedFileQueue Mem} {op : Op Mem} (h : Chained q)
    (hok : HeadOnly q op) (hs : step q op = some q') : Chained q' := by
  cases op <;> simp only [step, Option.some.injEq] at hs <;> subst hs
  case getLastMapedFile startOffset fresh => exact h.getLastMapedFile startOffset fresh
  case append n mem =>
    cases ha : q.appendLast n mem with
    | none => exact h
    | some q' => exact h.appendLast ha
  case truncateDirtyFiles offset => exact h.truncateDirtyFiles offset
  case deleteLastMapedFile => exact h.deleteLastMapedFile
  case deleteExpiredFileByTime expiredTime cleanImmediately lastModified now destroys =>
    exact h.of_suffix (deleteByTime_suffix 0 (by decide) _ (by simpa [HeadOnly, NoGap] using hok))
  case deleteExpiredFileByOffset offset unitSize lastUnit destroys =>
    exact h.of_suffix (deleteByOffset_suffix _ _ _ _ _ _)
  case retryDeleteFirstFile destroys => exact h.retryDeleteFirstFile destroys
  case commit flushLeastPages => exact h.commit flushLeastPages

/-- In a chain the lookup finds the file an offset lies in. -/
lemma Chained.findMapedFileByOffset {q : MapedFileQueue Mem} (h : Chained q) {o : ℕ}
    (hmin : q.getMinOffset ≤ o) (hmax : o < q.getMaxOffset) (returnFirst : Bool) :
    ∃ f, q.findMapedFileByOffset o returnFirst = some f ∧ f.fileFromOffset ≤ o ∧
      o < f.fileFromOffset + q.mapedFileSize := by
  rw [getMaxOffset_eq] at hmax
  unfold MapedFileQueue.getMinOffset at hmin
  unfold MapedFileQueue.findMapedFileByOffset
  unfold Chained at h
  cases hfiles : q.mapedFiles with
  | nil => simp [extents, hfiles] at hmax
  | cons first rest =>
    simp only [hfiles, List.head?_cons] at hmin
    rw [extents, hfiles, List.map_cons] at h hmax
    obtain ⟨hle, e, he, h1, h2⟩ := h.lookup q.size_pos (show first.fileFromOffset ≤ o by omega) hmax
    rw [← List.map_cons, List.getElem?_map] at he
    obtain ⟨f, hf, rfl⟩ := Option.map_eq_some_iff.mp he
    have hi : o / q.mapedFileSize - first.fileFromOffset / q.mapedFileSize <
        (first :: rest).length := (List.getElem?_eq_some_iff.mp hf).1
    have hindex : q.findIndex first o =
        ((o / q.mapedFileSize - first.fileFromOffset / q.mapedFileSize : ℕ) : ℤ) := by
      unfold MapedFileQueue.findIndex
      exact (Nat.cast_sub hle).symm
    refine ⟨f, ?_, h1, h2⟩
    simp only [hindex]
    rw [if_pos ⟨by omega, by omega⟩, Int.toNat_natCast]
    exact hf

/-- The file an offset of the queue lies in. -/
lemma exists_file {q : MapedFileQueue Mem} (h : Chained q) {o : ℕ}
    (hmin : q.getMinOffset ≤ o) (hmax : o < q.getMaxOffset) :
    ∃ f ∈ q.mapedFiles, f.fileFromOffset ≤ o ∧ o < f.fileFromOffset + q.mapedFileSize := by
  obtain ⟨f, hf, h1, h2⟩ := h.findMapedFileByOffset hmin hmax false
  refine ⟨f, ?_, h1, h2⟩
  unfold MapedFileQueue.findMapedFileByOffset at hf
  split at hf
  · exact absurd hf (by simp)
  · next first rest hfiles =>
    simp only at hf
    split at hf
    · rw [hfiles]; exact List.mem_of_getElem? hf
    · simp at hf

/-- **Segment chain.** From a regular directory, along every run that takes expired files from
the head only, each file starts where the one before it ends, every file but the last is full,
and the lookup finds the file of every offset between the smallest and the largest one. -/
theorem segment_chain {size : ℕ} (hpos : 0 < size) {dir : List (ℕ × ℕ × Mem)}
    (hdir : Regular size dir) {ops : List (Op Mem)} {q : MapedFileQueue Mem}
    (hok : Meets step HeadOnly ((empty size hpos).load dir) ops)
    (hrun : run step ((empty size hpos).load dir) ops = some q) :
    (q.mapedFiles.IsChain fun f g =>
      f.wrotePostion = q.mapedFileSize ∧ g.fileFromOffset = f.fileFromOffset + q.mapedFileSize) ∧
    ∀ o : ℕ, q.getMinOffset ≤ o → o < q.getMaxOffset →
      ∃ f, q.findMapedFileByOffset o false = some f ∧ f.fileFromOffset ≤ o ∧
        o < f.fileFromOffset + q.mapedFileSize := by
  have h : Chained q := run_invariant
    (fun _ _ _ h hok hs => step_chained h hok hs) (chained_load hpos hdir) hok hrun
  exact ⟨(List.isChain_map extent).mp h.chain,
    fun o hmin hmax => h.findMapedFileByOffset hmin hmax false⟩

/-- Three loaded files of 1024 bytes. -/
def threeFiles : List (ℕ × ℕ × List UInt8) :=
  [0, 1024, 2048].map fun o => (o, 1024, List.replicate 1024 0)

/-- One of the files was not touched for a day, the others are new. -/
def deleteAt (o : ℕ) : Op (List UInt8) :=
  .deleteExpiredFileByTime 86400000 false
    (fun f => if f.fileFromOffset = o then 0 else 86400000) (fun _ => 86400000) fun _ => true

lemma regular_threeFiles : Regular 1024 threeFiles := by
  change Contiguous 1024 [(0, 1024), (1024, 1024), (2048, 1024)]
  exact ⟨by simp [Follows], by simp, by simp⟩

/-- The middle file goes, and what follows it is no longer found. -/
theorem segment_chain_gap :
    Regular 1024 threeFiles ∧
    ∃ q, run step ((empty 1024 (by decide)).load threeFiles) [deleteAt 1024] = some q ∧
      ¬ (q.mapedFiles.IsChain fun f g => f.wrotePostion = q.mapedFileSize ∧
        g.fileFromOffset = f.fileFromOffset + q.mapedFileSize) ∧
      q.getMinOffset ≤ 2048 ∧ 2048 < q.getMaxOffset ∧
      (q.findMapedFileByOffset 2048 false).isNone :=
  ⟨regular_threeFiles, _, rfl, by decide, by decide, by decide, by decide⟩

theorem segment_chain_head :
    ∃ q, run step ((empty 1024 (by decide)).load threeFiles)
        [deleteAt 0, .getLastMapedFile 0 (some []), .append 100 [1], .truncateDirtyFiles 3100,
          .append 1 [2]] = some q ∧ q.getMaxOffset = 3101 ∧
      ∀ o : ℕ, q.getMinOffset ≤ o → o < q.getMaxOffset →
        ∃ f, q.findMapedFileByOffset o false = some f ∧ f.fileFromOffset ≤ o ∧
          o < f.fileFromOffset + q.mapedFileSize := by
  have hok : Meets step HeadOnly ((empty 1024 (by decide)).load threeFiles)
      [deleteAt 0, .getLastMapedFile 0 (some []), .append 100 [1], .truncateDirtyFiles 3100,
        .append 1 [2]] := by
    refine ⟨?_, ?_⟩
    · intro _ _ g hg
      revert g
      decide
    · simp [Meets, HeadOnly]
  exact ⟨_, rfl, by decide, (segment_chain (by decide) regular_threeFiles hok rfl).2⟩

end CloudMQ.Chain
