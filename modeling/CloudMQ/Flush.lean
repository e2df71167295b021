import CloudMQ.Chain

/-!
Flush progress: `committedWhere` only moves forward, stays within the log, and everything
before it has been forced to disk.

`commit` works on the file that `committedWhere` lies in and falls back to the first file when
there is none. When `committedWhere` stands at the end of the last file and the next file does
not exist yet, the first file is not the right one: a commit then throws `committedWhere` back
to the end of the first file.
-/

namespace CloudMQ.Flush

open CloudMQ.Extents CloudMQ.Runs CloudMQ.Segment CloudMQ.Chain

variable {Mem : Type} {q : MapedFileQueue Mem}

/-! ### The file a commit works on -/

/-- `committedWhere` lies in the file that is committed, or before the first file, or at the
end of the last one. -/
lemma commitIndex_spec (h : Chained q) (hle : q.committedWhere ≤ q.getMaxOffset)
    {first : MapedFile Mem} {rest : List (MapedFile Mem)}
    (hfiles : q.mapedFiles = first :: rest) :
    (∃ f, q.mapedFiles[q.commitIndex]? = some f ∧ f.fileFromOffset ≤ q.committedWhere ∧
      q.committedWhere < f.fileFromOffset + q.mapedFileSize) ∨
    q.commitIndex = 0 ∧ (q.committedWhere < first.fileFromOffset ∨
      q.committedWhere =
        first.fileFromOffset + q.mapedFiles.length * q.mapedFileSize) := by
  have h' := h
  rw [Chained, extents, hfiles, List.map_cons] at h'
  have hpos := q.size_pos
  obtain ⟨k, hk⟩ := h'.aligned (extent first) (by simp)
  change first.fileFromOffset = q.mapedFileSize * k at hk
  have hdiv : first.fileFromOffset / q.mapedFileSize = k := by
    rw [hk, Nat.mul_div_cancel_left _ hpos]
  unfold MapedFileQueue.commitIndex
  simp only [hfiles, MapedFileQueue.findIndex, hdiv]
  rcases Nat.lt_or_ge q.committedWhere first.fileFromOffset with h1 | h1
  · -- before the first file
    have h2 : q.committedWhere / q.mapedFileSize < k := by
      rw [Nat.div_lt_iff_lt_mul hpos, mul_comm, ← hk]; exact h1
    right
    rw [if_neg (by omega)]
    exact ⟨rfl, .inl h1⟩
  rcases Nat.lt_or_ge q.committedWhere
      (first.fileFromOffset + q.mapedFiles.length * q.mapedFileSize) with h2 | h2
  · left
    rw [hfiles, List.length_cons] at h2
    obtain ⟨h3, e, he, h4, h5⟩ :=
      h'.lookup_block hpos (o := q.committedWhere) h1 (by rw [List.length_map]; exact h2)
    change first.fileFromOffset / q.mapedFileSize ≤ _ at h3
    change _[_ - first.fileFromOffset / q.mapedFileSize]? = _ at he
    rw [hdiv] at h3 he
    rw [← List.map_cons, List.getElem?_map] at he
    obtain ⟨f, hf, rfl⟩ := Option.map_eq_some_iff.mp he
    have hi := (List.getElem?_eq_some_iff.mp hf).1
    refine ⟨f, ?_, h4, h5⟩
    rw [if_pos ⟨by omega, by omega⟩, ← Nat.cast_sub h3, Int.toNat_natCast]
    exact hf
  · have h3 : q.committedWhere =
        first.fileFromOffset + q.mapedFiles.length * q.mapedFileSize :=
      le_antisymm (hle.trans (max_le_end h hfiles)) h2
    have h4 : q.committedWhere / q.mapedFileSize = k + q.mapedFiles.length := by
      rw [h3, hk, mul_comm, ← Nat.add_mul, Nat.mul_div_cancel _ hpos]
    right
    rw [hfiles] at h4 h3
    rw [if_neg (by omega)]
    exact ⟨rfl, .inr h3⟩

/-! ### The invariant -/

structure FlushInv (q : MapedFileQueue Mem) : Prop where
  chained : Chained q
  positions : ∀ f ∈ q.mapedFiles, f.committedPosition ≤ f.forced ∧ f.forced ≤ f.wrotePostion
  le_max : q.committedWhere ≤ q.getMaxOffset
  /-- a file that `committedWhere` has left behind is committed to its end -/
  reached : ∀ f ∈ q.mapedFiles, q.committedWhere ≤ f.fileFromOffset + f.committedPosition ∨
    f.committedPosition = q.mapedFileSize
  lastAvailable : ∀ f ∈ q.mapedFiles.getLast?, f.available

/-- Everything before `committedWhere` lies in a range that was forced. -/
lemma FlushInv.forced (h : FlushInv q) {o : ℕ} (hmin : q.getMinOffset ≤ o)
    (hlt : o < q.committedWhere) :
    ∃ f ∈ q.mapedFiles, f.fileFromOffset ≤ o ∧ o < f.fileFromOffset + f.forced := by
  obtain ⟨f, hmem, h1, h2⟩ := exists_file h.chained hmin (hlt.trans_le h.le_max)
  obtain ⟨hp, -⟩ := h.positions f hmem
  refine ⟨f, hmem, h1, ?_⟩
  rcases h.reached f hmem with h3 | h3 <;> omega

/-! ### Deletion from the head -/

/-- What deletion leaves: files that were there, possibly shut down, and the last one as it
was. -/
def Remains (l l' : List (MapedFile Mem)) : Prop :=
  (∀ f ∈ l', ∃ g ∈ l, f = g ∨ f = g.destroyed) ∧ l'.getLast? = l.getLast?

lemma Remains.refl (l : List (MapedFile Mem)) : Remains l l := ⟨fun f hf => ⟨f, hf, .inl rfl⟩, rfl⟩

lemma Remains.cons_left {f g : MapedFile Mem} {l l' : List (MapedFile Mem)}
    (h : Remains (g :: l) l') : Remains (f :: g :: l) l' := by
  refine ⟨fun x hx => ?_, by rw [h.2, List.getLast?_cons_cons]⟩
  obtain ⟨y, hy, hxy⟩ := h.1 x hx
  exact ⟨y, List.mem_cons_of_mem _ hy, hxy⟩

lemma Remains.destroyed (f g : MapedFile Mem) (l : List (MapedFile Mem)) :
    Remains (f :: g :: l) (f.destroyed :: g :: l) := by
  refine ⟨fun x hx => ?_, by rw [List.getLast?_cons_cons, List.getLast?_cons_cons]⟩
  rcases List.mem_cons.mp hx with rfl | hx
  · exact ⟨f, by simp, .inr rfl⟩
  · exact ⟨x, List.mem_cons_of_mem _ hx, .inl rfl⟩

lemma Remains.cons {f g : MapedFile Mem} {l l' : List (MapedFile Mem)}
    (h : Remains (g :: l) l') : Remains (f :: g :: l) (f :: l') := by
  refine ⟨fun x hx => ?_, ?_⟩
  · rcases List.mem_cons.mp hx with rfl | hx
    · exact ⟨x, by simp, .inl rfl⟩
    · exact h.cons_left.1 x hx
  · cases l' with
    | nil =>
      have := h.2
      simp [List.getLast?_cons] at this
    | cons g' l' => rw [List.getLast?_cons_cons, List.getLast?_cons_cons, h.2]

lemma remains_deleteByTime (expired destroys : MapedFile Mem → Bool) (n : ℕ)
    (l : List (MapedFile Mem)) :
    Remains l (MapedFileQueue.deleteByTime expired destroys n l) := by
  fun_induction MapedFileQueue.deleteByTime expired destroys n l with
  | case1 => exact .refl _
  | case2 => exact .refl _
  | case3 n f g rest => exact (Remains.refl _).cons_left
  | case4 n f g rest he hd hmax ih => exact ih.cons_left
  | case5 n f g rest => exact .destroyed f g rest
  | case6 n f g rest he ih => exact ih.cons

lemma remains_deleteByOffset (size unitSize : ℕ) (lastUnit : Mem → ℤ) (offset : ℤ)
    (destroys : MapedFile Mem → Bool) (l : List (MapedFile Mem)) :
    Remains l (MapedFileQueue.deleteByOffset size unitSize lastUnit offset destroys l) := by
  fun_induction MapedFileQueue.deleteByOffset size unitSize lastUnit offset destroys l with
  | case1 => exact .refl _
  | case2 => exact .refl _
  | case3 f g rest _ _ _ ih => exact ih.cons_left
  | case4 f g rest => exact .destroyed f g rest
  | case5 => exact .refl _
  | case6 => exact .refl _

/-- Deletion from the head keeps the invariant. -/
lemma FlushInv.of_remains (h : FlushInv q) {l : List (MapedFile Mem)}
    (hr : Remains q.mapedFiles l) (hs : l.map extent <:+ extents q) :
    FlushInv { q with mapedFiles := l } where
  chained := h.chained.of_suffix hs
  positions f hf := by
    obtain ⟨g, hg, rfl | rfl⟩ := hr.1 f hf
    · exact h.positions _ hg
    · exact h.positions g hg
  le_max := by
    have := h.le_max
    simpa only [MapedFileQueue.getMaxOffset, hr.2] using this
  reached f hf := by
    obtain ⟨g, hg, rfl | rfl⟩ := hr.1 f hf
    · exact h.reached _ hg
    · exact h.reached g hg
  lastAvailable f hf := h.lastAvailable f (by simpa only [hr.2] using hf)

/-! ### Appending and committing -/

/-- A new file starts at or behind the end of the queue. -/
lemma max_le_createOffset (h : Chained q) {startOffset createOffset : ℕ}
    (hc : q.createOffset startOffset = some createOffset) : q.getMaxOffset ≤ createOffset := by
  unfold MapedFileQueue.createOffset at hc
  unfold MapedFileQueue.getMaxOffset
  cases hlast : q.mapedFiles.getLast? with
  | none => exact Nat.zero_le _
  | some last =>
    have := wrote_le h (List.mem_of_getLast? hlast)
    rw [hlast] at hc
    simp only at hc ⊢
    split at hc
    · simp only [Option.some.injEq] at hc
      omega
    · exact absurd hc (by simp)

lemma FlushInv.getLastMapedFile (h : FlushInv q) (startOffset : ℕ) (fresh : Option Mem) :
    FlushInv (q.getLastMapedFile startOffset fresh).2 := by
  have hchain := h.chained.getLastMapedFile startOffset fresh
  revert hchain
  unfold MapedFileQueue.getLastMapedFile
  split
  · exact fun _ => h
  · next createOffset hc =>
    cases fresh with
    | none => exact fun _ => h
    | some mem =>
      intro hchain
      have hstart := max_le_createOffset h.chained hc
      have hle := h.le_max
      constructor
      · exact hchain
      · intro f hf
        rcases List.mem_append.mp hf with hf | hf
        · exact h.positions f hf
        · rw [List.mem_singleton.mp hf]
          exact ⟨le_rfl, le_rfl⟩
      · simp only [MapedFileQueue.getMaxOffset, List.getLast?_append, List.getLast?_singleton,
          Option.some_or]
        omega
      · intro f hf
        rcases List.mem_append.mp hf with hf | hf
        · exact h.reached f hf
        · rw [List.mem_singleton.mp hf]
          simp only
          omega
      · intro f hf
        simp only [List.getLast?_append, List.getLast?_singleton, Option.some_or,
          Option.mem_some_iff] at hf
        rw [← hf]

/-- The last file is filled further, and nothing else. -/
lemma FlushInv.setLast (h : FlushInv q) {last f : MapedFile Mem}
    (hlast : q.mapedFiles.getLast? = some last) (hfrom : f.fileFromOffset = last.fileFromOffset)
    (hwrote : last.wrotePostion ≤ f.wrotePostion) (hfill : f.wrotePostion ≤ q.mapedFileSize)
    (hcommitted : f.committedPosition = last.committedPosition) (hforced : f.forced = last.forced)
    (havailable : f.available = last.available) : FlushInv (q.setLast f) := by
  have hmem := List.mem_of_getLast? hlast
  have hp := h.positions last hmem
  have hle := h.le_max
  refine ⟨h.chained.setLast hlast hfrom hfill, forall_mem_setLast h.positions ?_, ?_,
    forall_mem_setLast h.reached ?_, fun g hg => ?_⟩
  · rw [hcommitted, hforced]
    exact ⟨hp.1, hp.2.trans hwrote⟩
  · simp only [MapedFileQueue.setLast, MapedFileQueue.getMaxOffset, List.getLast?_append,
      List.getLast?_singleton, Option.some_or, hlast] at hle ⊢
    omega
  · rw [hfrom, hcommitted]
    exact h.reached last hmem
  · simp only [MapedFileQueue.setLast, List.getLast?_append, List.getLast?_singleton,
      Option.some_or, Option.mem_some_iff] at hg
    rw [← hg, havailable]
    exact h.lastAvailable last hlast

lemma FlushInv.appendLast (h : FlushInv q) {n : ℕ} {mem : Mem} {q' : MapedFileQueue Mem}
    (ha : q.appendLast n mem = some q') :
    FlushInv q' ∧ q'.committedWhere = q.committedWhere := by
  unfold MapedFileQueue.appendLast at ha
  cases hlast : q.mapedFiles.getLast? with
  | none => rw [hlast] at ha; exact absurd ha (by simp)
  | some last =>
    rw [hlast] at ha
    obtain ⟨f, hf, rfl⟩ := Option.map_eq_some_iff.mp ha
    unfold MapedFile.append at hf
    split at hf
    · next hroom =>
      simp only [Option.some.injEq] at hf
      subst hf
      exact ⟨h.setLast hlast rfl (Nat.le_add_right _ _) hroom rfl rfl rfl, rfl⟩
    · exact absurd hf (by simp)

/-- A commit of one live file: `committedPosition` moves up, to the end if the file is full. -/
lemma commit_file {size : ℕ} {f : MapedFile Mem} (n : ℤ) (ha : f.available)
    (hp : f.committedPosition ≤ f.forced ∧ f.forced ≤ f.wrotePostion) :
    f.committedPosition ≤ (f.commit size n).committedPosition ∧
      (f.commit size n).committedPosition ≤ (f.commit size n).forced ∧
      (f.commit size n).forced ≤ f.wrotePostion ∧
      (f.wrotePostion = size → (f.commit size n).committedPosition = size) := by
  unfold MapedFile.commit
  by_cases hab : f.isAbleToFlush size n
  · rw [if_pos hab, if_pos ha]
    simp only
    omega
  · rw [if_neg hab]
    refine ⟨le_rfl, hp.1, hp.2, fun hfull => ?_⟩
    exact absurd (by simp [MapedFile.isAbleToFlush, MapedFile.isFull, hfull]) hab

lemma commit_available (size : ℕ) (f : MapedFile Mem) (n : ℤ) :
    (f.commit size n).available = f.available := by
  unfold MapedFile.commit
  split
  · split <;> rfl
  · rfl

/-- `hold()` succeeds on the file that a commit works on. -/
def Holds (q : MapedFileQueue Mem) : Prop :=
  ∀ f ∈ q.mapedFiles[q.commitIndex]?, f.available

/-- `committedWhere` stands at the end of the last file of several. -/
def AtEnd (q : MapedFileQueue Mem) : Prop :=
  2 ≤ q.mapedFiles.length ∧
    ∃ last ∈ q.mapedFiles.getLast?, q.committedWhere = last.fileFromOffset + q.mapedFileSize

instance (q : MapedFileQueue Mem) : Decidable (Holds q) :=
  inferInstanceAs (Decidable (∀ f ∈ q.mapedFiles[q.commitIndex]?, f.available))

instance (q : MapedFileQueue Mem) : Decidable (AtEnd q) :=
  inferInstanceAs (Decidable (2 ≤ q.mapedFiles.length ∧
    ∃ last ∈ q.mapedFiles.getLast?, q.committedWhere = last.fileFromOffset + q.mapedFileSize))

/-- Where `committedWhere` goes: to the file that is committed, which lies behind files
committed to their ends. -/
lemma commit_where (h : FlushInv q) {f : MapedFile Mem}
    (hf : q.mapedFiles[q.commitIndex]? = some f) :
    (¬ AtEnd q → q.committedWhere ≤ f.fileFromOffset + f.committedPosition ∨
      q.committedWhere = f.fileFromOffset + q.mapedFileSize ∧ f.wrotePostion = q.mapedFileSize) ∧
    (AtEnd q → f.fileFromOffset + q.mapedFileSize < q.committedWhere) ∧
    ∀ j < q.commitIndex, ∀ g, q.mapedFiles[j]? = some g →
      g.committedPosition = q.mapedFileSize := by
  have hpos := q.size_pos
  cases hfiles : q.mapedFiles with
  | nil => simp [hfiles] at hf
  | cons first rest =>
    obtain ⟨last, hlast⟩ : ∃ last, q.mapedFiles.getLast? = some last := by
      rw [hfiles]; exact ⟨_, List.getLast?_eq_some_getLast (List.cons_ne_nil _ _)⟩
    have hidx : q.mapedFiles[q.mapedFiles.length - 1]? = some last := by
      rw [← hlast, List.getLast?_eq_getElem?]
    have hlen : q.mapedFiles.length = rest.length + 1 := by rw [hfiles, List.length_cons]
    have hstart := start_of_index h.chained hfiles hidx
    have hend : last.fileFromOffset + q.mapedFileSize =
        first.fileFromOffset + q.mapedFiles.length * q.mapedFileSize := by
      rw [hstart, hlen, Nat.add_sub_cancel, Nat.succ_mul]; ring
    have hatEnd : AtEnd q ↔ 2 ≤ q.mapedFiles.length ∧ q.committedWhere =
        first.fileFromOffset + q.mapedFiles.length * q.mapedFileSize := by
      unfold AtEnd
      rw [hlast, ← hend]
      simp
    rw [← hfiles]
    rcases commitIndex_spec h.chained h.le_max hfiles with ⟨f', hf', h1, h2⟩ | ⟨h0, h1⟩
    · rw [hf, Option.some.injEq] at hf'
      subst hf'
      refine ⟨fun _ => ?_, fun hat => ?_, fun j hj g hg => ?_⟩
      · rcases h.reached f (List.mem_of_getElem? hf) with h3 | h3 <;> omega
      · -- the file found contains `committedWhere`, which is not its end
        have hstart' := start_of_index h.chained hfiles hf
        have hi := (List.getElem?_eq_some_iff.mp hf).1
        have := Nat.mul_le_mul_right q.mapedFileSize (show q.commitIndex + 1 ≤ _ from hi)
        rw [Nat.succ_mul] at this
        have := (hatEnd.mp hat).2
        omega
      · have h3 := end_le_start h.chained hj hg hf
        have h4 := wrote_le h.chained (List.mem_of_getElem? hg)
        have h5 := h.positions g (List.mem_of_getElem? hg)
        rcases h.reached g (List.mem_of_getElem? hg) with h6 | h6 <;> omega
    · have hfirst : f = first := by
        rw [h0, hfiles] at hf; simpa using hf.symm
      subst hfirst
      refine ⟨fun hat => ?_, fun hat => ?_, fun j hj => absurd hj (by omega)⟩
      · rcases h1 with h1 | h1
        · left; omega
        · -- one file only: it is the last one, and it is full
          have h2 : q.mapedFiles.length = 1 := by
            by_contra hne
            exact hat (hatEnd.mpr ⟨by omega, h1⟩)
          have h3 := h.le_max
          have h4 : q.getMaxOffset = f.fileFromOffset + f.wrotePostion := by
            rw [MapedFileQueue.getMaxOffset, hlast]
            rw [h2, hfiles] at hidx
            simp only [Nat.sub_self, List.getElem?_cons_zero, Option.some.injEq] at hidx
            rw [hidx]
          have h5 := wrote_le h.chained (List.mem_of_getElem? hf)
          rw [h2] at h1
          right
          omega
      · obtain ⟨h2, h3⟩ := hatEnd.mp hat
        have := Nat.mul_le_mul_right q.mapedFileSize h2
        omega

/-- A commit keeps the invariant, and it lowers `committedWhere` exactly at the end of the last
of several files. -/
lemma FlushInv.commit (h : FlushInv q) (hh : Holds q) (n : ℤ) :
    FlushInv (q.commit n) ∧ (q.committedWhere ≤ (q.commit n).committedWhere ↔ ¬ AtEnd q) := by
  have hchain := h.chained.commit n
  have hmax : (q.commit n).getMaxOffset = q.getMaxOffset := by
    rw [getMaxOffset_eq, getMaxOffset_eq, extents_commit]
  revert hchain hmax
  unfold MapedFileQueue.commit
  split
  · next hf =>
    -- no file, nothing to do
    refine fun _ _ => ⟨h, fun _ hat => ?_, fun _ => le_rfl⟩
    have hlt : q.mapedFiles.length ≤ q.commitIndex := List.getElem?_eq_none_iff.mp hf
    cases hfiles : q.mapedFiles with
    | nil => have := hat.1; simp [hfiles] at this
    | cons first rest =>
      rcases commitIndex_spec h.chained h.le_max hfiles with ⟨f, hf', -⟩ | ⟨h0, -⟩
      · rw [hf] at hf'; exact absurd hf' (by simp)
      · rw [hfiles, List.length_cons] at hlt; omega
  · next f hf =>
    intro hchain hmax
    have hmem := List.mem_of_getElem? hf
    obtain ⟨h1, h2, h3, h4⟩ := commit_file n (hh f hf)
      (h.positions f hmem)
    obtain ⟨hnot, hat, hbefore⟩ := commit_where h hf
    have hfrom : (f.commit q.mapedFileSize n).fileFromOffset = f.fileFromOffset :=
      congrArg Prod.fst (extent_commit q.mapedFileSize f n)
    have hwrote : (f.commit q.mapedFileSize n).wrotePostion = f.wrotePostion :=
      congrArg Prod.snd (extent_commit q.mapedFileSize f n)
    have hle := wrote_le h.chained hmem
    have hlemax := wrote_le_max h.chained hmem
    refine ⟨⟨hchain, fun g hg => ?_, ?_, fun g hg => ?_, fun g hg => ?_⟩, ?_⟩
    · rcases List.mem_or_eq_of_mem_set hg with hg | rfl
      · exact h.positions g hg
      · exact ⟨h2, hwrote ▸ h3⟩
    · rw [hmax]
      simp only [hfrom]
      omega
    · rcases List.mem_or_eq_of_mem_set hg with hg' | rfl
      · obtain ⟨j, hj⟩ := List.getElem?_of_mem hg
        rw [List.getElem?_set] at hj
        split at hj
        · split at hj
          · simp only [Option.some.injEq] at hj
            rw [← hj]
            exact .inl le_rfl
          · exact absurd hj (by simp)
        · next hne =>
          rcases Nat.lt_or_ge j q.commitIndex with h5 | h5
          · exact .inr (hbefore j h5 g hj)
          · have := end_le_start h.chained (show q.commitIndex < j by omega) hf hj
            left
            simp only [hfrom]
            omega
      · exact .inl le_rfl
    · rw [List.getLast?_eq_getElem?, List.length_set] at hg
      rw [List.getElem?_set] at hg
      split at hg
      · next hidx =>
        split at hg
        · simp only [Option.mem_some_iff] at hg
          rw [← hg, commit_available]
          exact hh f hf
        · exact absurd hg (by simp)
      · exact h.lastAvailable g (by rw [List.getLast?_eq_getElem?]; exact hg)
    · simp only [hfrom]
      constructor
      · intro hmono hat'
        have := hat hat'
        omega
      · intro hat'
        rcases hnot hat' with h5 | ⟨h5, h6⟩
        · omega
        · have := h4 h6
          omega

/-! ### Runs -/

/-- A queue that is in step with its disk, as it is when it is new or was just recovered. -/
structure Settled (q : MapedFileQueue Mem) : Prop where
  chained : Chained q
  le_max : q.committedWhere ≤ q.getMaxOffset
  files : ∀ f ∈ q.mapedFiles, f.committedPosition = f.wrotePostion ∧
    f.forced = f.wrotePostion ∧ f.available

lemma Settled.flushInv (h : Settled q) : FlushInv q where
  chained := h.chained
  positions f hf := by
    obtain ⟨h1, h2, -⟩ := h.files f hf
    omega
  le_max := h.le_max
  reached f hf := by
    obtain ⟨i, hi⟩ := List.getElem?_of_mem hf
    obtain ⟨h1, -⟩ := h.files f hf
    have hlt := (List.getElem?_eq_some_iff.mp hi).1
    have hle := h.le_max
    rcases Nat.lt_or_ge (i + 1) q.mapedFiles.length with h2 | h2
    · right
      rw [h1]
      refine h.chained.full (e := extent f) (i := i) ?_ (by simpa [extents] using h2)
      rw [extents, List.getElem?_map, hi]; rfl
    · left
      have hlast : q.mapedFiles.getLast? = some f := by
        rw [List.getLast?_eq_getElem?, show q.mapedFiles.length - 1 = i by omega, hi]
      rw [MapedFileQueue.getMaxOffset, hlast] at hle
      simpa only [h1] using hle
  lastAvailable f hf := (h.files f (List.mem_of_getLast? hf)).2.2

/-- The operations of a live queue: files go from the head only, and the file that is committed
can be held. -/
def Live (q : MapedFileQueue Mem) : Op Mem → Prop
  | .commit _ => Holds q
  | .truncateDirtyFiles _ => False
  | .deleteLastMapedFile => False
  | op => HeadOnly q op

/-- No commit is tried while `committedWhere` stands at the end of the last of several files. -/
def NotAtEnd (q : MapedFileQueue Mem) : Op Mem → Prop
  | .commit _ => ¬ AtEnd q
  | _ => True

lemma step_flush {q q' : MapedFileQueue Mem} {op : Op Mem} (h : FlushInv q)
    (hok : Live q op ∧ NotAtEnd q op) (hs : step q op = some q') :
    FlushInv q' ∧ q.committedWhere ≤ q'.committedWhere := by
  obtain ⟨hlive, hend⟩ := hok
  cases op <;> simp only [step, Option.some.injEq] at hs <;> subst hs
  case getLastMapedFile startOffset fresh =>
    refine ⟨h.getLastMapedFile startOffset fresh, le_of_eq ?_⟩
    unfold MapedFileQueue.getLastMapedFile
    split
    · rfl
    · cases fresh <;> rfl
  case append n mem =>
    cases ha : q.appendLast n mem with
    | none => exact ⟨h, le_rfl⟩
    | some q' =>
      obtain ⟨h1, h2⟩ := h.appendLast ha
      exact ⟨h1, h2.ge⟩
  case truncateDirtyFiles => exact absurd hlive id
  case deleteLastMapedFile => exact absurd hlive id
  case deleteExpiredFileByTime expiredTime cleanImmediately lastModified now destroys =>
    refine ⟨h.of_remains (remains_deleteByTime _ _ _ _) (deleteByTime_suffix 0 (by decide) _ ?_),
      le_rfl⟩
    simpa [Live, HeadOnly, NoGap] using hlive
  case deleteExpiredFileByOffset offset unitSize lastUnit destroys =>
    exact ⟨h.of_remains (remains_deleteByOffset _ _ _ _ _ _) (deleteByOffset_suffix _ _ _ _ _ _),
      le_rfl⟩
  case retryDeleteFirstFile destroys =>
    unfold MapedFileQueue.retryDeleteFirstFile
    split
    · exact ⟨h, le_rfl⟩
    · next f rest hfiles =>
      split
      · next hdown =>
        cases rest with
        | nil =>
          -- the only file is the last one, which is never shut down
          have := h.lastAvailable f (by simp [hfiles])
          simp [this] at hdown
        | cons g rest =>
          refine ⟨h.of_remains ?_ ?_, le_rfl⟩
          · rw [hfiles]; exact (Remains.refl _).cons_left
          · rw [extents, hfiles]; exact List.suffix_cons _ _
      · exact ⟨h, le_rfl⟩
  case commit n =>
    obtain ⟨h1, h2⟩ := h.commit hlive n
    exact ⟨h1, h2.mpr hend⟩

/-- **Flush progress.** Along every run of a live queue in which no commit is tried at the end
of the last of several files, `committedWhere` never decreases, never exceeds the end of the
queue, and every byte before it lies in a range that was forced. -/
theorem flush_progress {q₀ q₁ q₂ : MapedFileQueue Mem} {as bs : List (Op Mem)}
    (h0 : Settled q₀)
    (hok : Meets step (fun q op => Live q op ∧ NotAtEnd q op) q₀ (as ++ bs))
    (h1 : run step q₀ as = some q₁) (h2 : run step q₁ bs = some q₂) :
    q₁.committedWhere ≤ q₂.committedWhere ∧ q₂.committedWhere ≤ q₂.getMaxOffset ∧
      ∀ o : ℕ, q₂.getMinOffset ≤ o → o < q₂.committedWhere →
        ∃ f ∈ q₂.mapedFiles, f.fileFromOffset ≤ o ∧ o < f.fileFromOffset + f.forced := by
  obtain ⟨hok1, hok2⟩ := hok.append h1
  have hinv1 : FlushInv q₁ := run_invariant
    (fun _ _ _ h hok hs => (step_flush h hok hs).1) h0.flushInv hok1 h1
  have hinv2 : FlushInv q₂ := run_invariant
    (fun _ _ _ h hok hs => (step_flush h hok hs).1) hinv1 hok2 h2
  refine ⟨?_, hinv2.le_max, fun o hmin hlt => hinv2.forced hmin hlt⟩
  have hstep : ∀ (q : MapedFileQueue Mem) (op : Op Mem) (q' : MapedFileQueue Mem), FlushInv q →
      Live q op ∧ NotAtEnd q op → step q op = some q' →
        FlushInv q' ∧ q.committedWhere ≤ q'.committedWhere :=
    fun _ _ _ h hok hs => step_flush h hok hs
  exact run_monotone (fun q => q.committedWhere) hstep hinv1 hok2 h2

/-- Two files are filled and committed, before a third one exists. -/
def fillTwo : List (Op (List UInt8)) :=
  [.getLastMapedFile 0 (some []), .append 1024 [], .getLastMapedFile 0 (some []),
    .append 1024 [], .commit 0, .commit 0]

def start : MapedFileQueue (List UInt8) := Chain.empty 1024 pos_1024

lemma settled_start : Settled start := ⟨.nil, le_rfl, by simp [start, Chain.empty]⟩

/-- One more commit, and `committedWhere` falls back from 2048 to 1024. -/
theorem flush_progress_back :
    Settled start ∧ Meets step Live start (fillTwo ++ [.commit 0]) ∧
    ∃ q₁ q₂, run step start fillTwo = some q₁ ∧ run step q₁ [.commit 0] = some q₂ ∧
      q₁.committedWhere = 2048 ∧ q₂.committedWhere = 1024 := by
  refine ⟨settled_start, ?_, _, _, rfl, rfl, by decide, by decide⟩
  refine .cons rfl trivial (.cons rfl trivial (.cons rfl trivial (.cons rfl trivial ?_)))
  refine .cons rfl (show Holds _ by decide) (.cons rfl (show Holds _ by decide) ?_)
  exact .cons rfl (show Holds _ by decide) trivial

/-- The second file is begun, committed, and the first one deleted. -/
def rollOver : List (Op (List UInt8)) :=
  [.append 100 [], .commit 0, .commit 0,
    .deleteExpiredFileByTime 0 true (fun _ => 0) (fun _ => 0) fun _ => true]

theorem flush_progress_rollOver :
    ∃ q₁ q₂, run step start (fillTwo.take 3) = some q₁ ∧ run step q₁ rollOver = some q₂ ∧
      q₁.committedWhere = 0 ∧ q₂.committedWhere = 1124 ∧ q₂.getMinOffset = 1024 ∧
      q₁.committedWhere ≤ q₂.committedWhere ∧ q₂.committedWhere ≤ q₂.getMaxOffset ∧
        ∀ o : ℕ, q₂.getMinOffset ≤ o → o < q₂.committedWhere →
          ∃ f ∈ q₂.mapedFiles, f.fileFromOffset ≤ o ∧ o < f.fileFromOffset + f.forced := by
  have hok : Meets step (fun q op => Live q op ∧ NotAtEnd q op) start
      (fillTwo.take 3 ++ rollOver) := by
    refine .cons rfl ⟨trivial, trivial⟩ (.cons rfl ⟨trivial, trivial⟩ ?_)
    refine .cons rfl ⟨trivial, trivial⟩ (.cons rfl ⟨trivial, trivial⟩ ?_)
    refine .cons rfl ⟨show Holds _ by decide, show ¬ AtEnd _ by decide⟩ ?_
    refine .cons rfl ⟨show Holds _ by decide, show ¬ AtEnd _ by decide⟩ ?_
    refine .cons rfl ⟨fun _ _ g hg => ?_, trivial⟩ trivial
    revert g
    decide
  exact ⟨_, _, rfl, rfl, by decide, by decide, by decide,
    flush_progress settled_start hok rfl rfl⟩

end CloudMQ.Flush
