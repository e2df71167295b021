import CloudMQ.ConsumeQueues
import CloudMQ.TransactionState

/-!
Recovery of the index files, loop by loop: `ConsumeQueue.recover` and
`recoverStateTableNormal`.

Both walk the last three files unit by unit and cut the queue where the first unit lies that is
not valid. Files behind that place are removed, so the last three files of a second recovery may
lie further in front. What it finds there, the first one has not seen.
-/

namespace CloudMQ.IndexRecovery

open CloudMQ.Segment CloudMQ.Units CloudMQ.ConsumeQueues CloudMQ.TransactionState
open CloudMQ.Message (TransactionPreparedType)

variable {U A : Type}

/-- The `for` loop over the units of a file, from position `i` on. A file that ends within a unit
makes the reading fail. -/
def readUnits (w mapedFileSizeLogics : ℕ) (valid : U → Bool) (note : A → U → A)
    (i mapedFileOffset : ℕ) (a : A) : List U → Option (ℕ × A)
  | [] => if i < mapedFileSizeLogics then none else some (mapedFileOffset, a)
  | u :: byteBuffer =>
    if i < mapedFileSizeLogics then
      if valid u then
        readUnits w mapedFileSizeLogics valid note (i + w) (i + w) (note a u) byteBuffer
      else some (mapedFileOffset, a)
    else some (mapedFileOffset, a)

/-- The `while` loop over the files: where it ends, and what was noted on the way. -/
def readFiles (w mapedFileSizeLogics : ℕ) (valid : U → Bool) (note : A → U → A) (a : A) :
    List (MapedFile (List U)) → Option (ℕ × A)
  | [] => some (0, a)
  | mapedFile :: rest =>
    match readUnits w mapedFileSizeLogics valid note 0 0 a mapedFile.mappedByteBuffer with
    | none => none
    | some (mapedFileOffset, a) =>
      if mapedFileOffset = mapedFileSizeLogics then
        if rest.isEmpty then some (mapedFile.fileFromOffset + mapedFileOffset, a)
        else readFiles w mapedFileSizeLogics valid note a rest
      else some (mapedFile.fileFromOffset + mapedFileOffset, a)

/-- Recovery starts at the last third file. -/
def lastThree (mapedFiles : List (MapedFile (List U))) : List (MapedFile (List U)) :=
  mapedFiles.drop (mapedFiles.length - 3)

/-- What the two recoveries share. -/
def recoverLoop (w : ℕ) (valid : U → Bool) (note : A → U → A) (q : MapedFileQueue (List U))
    (a : A) : Option (MapedFileQueue (List U) × A) :=
  if q.mapedFiles.isEmpty then some (q, a)
  else
    (readFiles w q.mapedFileSize valid note a (lastThree q.mapedFiles)).map fun r =>
      (q.truncateDirtyFiles r.1, r.2)

/-- `ConsumeQueue.recover`. -/
def recover (cq : ConsumeQueue) : Option ConsumeQueue :=
  (recoverLoop CQStoreUnitSize CQUnit.isValid (fun _ u => u.offset) cq.mapedFileQueue
    cq.maxPhysicOffset).map fun r => { cq with mapedFileQueue := r.1, maxPhysicOffset := r.2 }

/-- The state table, and the counter of its rows. -/
structure StateTable where
  tranStateTable : Table
  tranStateTableOffset : Int64

def recoverStateTableNormal (t : StateTable) : Option StateTable :=
  (recoverLoop TSStoreUnitSize Row.isValid (fun _ _ => ()) t.tranStateTable ()).map fun r =>
    if t.tranStateTable.mapedFiles.isEmpty then t
    else ⟨r.1, Int64.ofNat (r.1.getMaxOffset / TSStoreUnitSize)⟩

/-! ### The run of valid units -/

section Run

variable {w size : ℕ} {valid : U → Bool} {note : A → U → A} {f : MapedFile (List U)}
  {files front back : List (MapedFile (List U))}

/-- The units of a file, each with the offset it lies at. -/
def cells (w : ℕ) (f : MapedFile (List U)) : List (ℕ × U) :=
  f.mappedByteBuffer.zipIdx.map fun c => (f.fileFromOffset + w * c.2, c.1)

/-- The longest run of valid units, across files. -/
def run (valid : U → Bool) (files : List (MapedFile (List U))) : List U :=
  (files.flatMap MapedFile.mappedByteBuffer).takeWhile valid

/-- Where the run ends: at the first unit that is not valid, else at the end of the last file. -/
def endOfRun (w size : ℕ) (valid : U → Bool) (files : List (MapedFile (List U))) : ℕ :=
  match (files.flatMap (cells w)).find? fun c => !valid c.2 with
  | some c => c.1
  | none =>
    match files.getLast? with
    | some f => f.fileFromOffset + size
    | none => 0

def AllValid (valid : U → Bool) (f : MapedFile (List U)) : Prop :=
  ∀ u ∈ f.mappedByteBuffer, valid u

lemma takeWhile_of_allValid (h : AllValid valid f) :
    f.mappedByteBuffer.takeWhile valid = f.mappedByteBuffer := List.takeWhile_eq_self_iff.mpr h

/-- The run ends in file `f`. -/
structure EndsIn (valid : U → Bool) (files front : List (MapedFile (List U)))
    (f : MapedFile (List U)) (back : List (MapedFile (List U))) : Prop where
  files_eq : files = front ++ f :: back
  front : ∀ g ∈ front, AllValid valid g
  stop : ¬ AllValid valid f ∨ back = []

lemma exists_endsIn (valid : U → Bool) (hne : files ≠ []) :
    ∃ front f back, EndsIn valid files front f back := by
  classical
  induction files with
  | nil => exact absurd rfl hne
  | cons g files ih =>
    by_cases hg : AllValid valid g
    · by_cases hnil : files = []
      · exact ⟨[], g, [], by rw [hnil]; rfl, by simp, .inr rfl⟩
      · obtain ⟨front, f, back, hfiles, hfront, hstop⟩ := ih hnil
        exact ⟨g :: front, f, back, by rw [hfiles]; rfl, List.forall_mem_cons.mpr ⟨hg, hfront⟩,
          hstop⟩
    · exact ⟨[], g, files, rfl, by simp, .inl hg⟩

lemma takeWhile_append_of_stop {us vs : List U} (h : ¬ (∀ u ∈ us, valid u) ∨ vs = []) :
    (us ++ vs).takeWhile valid = us.takeWhile valid := by
  rcases h with h | rfl
  · induction us with
    | nil => exact absurd (by simp) h
    | cons u us ih =>
      by_cases hu : valid u
      · rw [List.cons_append, List.takeWhile_cons_of_pos hu, List.takeWhile_cons_of_pos hu,
          ih fun hall => h (List.forall_mem_cons.mpr ⟨hu, hall⟩)]
      · rw [List.cons_append, List.takeWhile_cons_of_neg hu, List.takeWhile_cons_of_neg hu]
  · rw [List.append_nil]

/-- **The run**, file by file. -/
lemma EndsIn.run_eq (h : EndsIn valid files front f back) :
    run valid files =
      front.flatMap MapedFile.mappedByteBuffer ++ f.mappedByteBuffer.takeWhile valid := by
  have hfront : ∀ u ∈ front.flatMap MapedFile.mappedByteBuffer, valid u := by
    intro u hu
    obtain ⟨g, hg, hu⟩ := List.mem_flatMap.mp hu
    exact h.front g hg u hu
  rw [run, h.files_eq, List.flatMap_append, List.takeWhile_append_of_pos hfront,
    List.flatMap_cons, takeWhile_append_of_stop]
  refine h.stop.imp id fun hback => ?_
  rw [hback, List.flatMap_nil]

lemma find?_zipIdx (valid : U → Bool) (us : List U) (g : ℕ → ℕ) (n : ℕ) :
    ((us.zipIdx n).map fun c => (g c.2, c.1)).find? (fun c => !valid c.2) =
      us[(us.takeWhile valid).length]?.map fun u => (g (n + (us.takeWhile valid).length), u) := by
  induction us generalizing n with
  | nil => rfl
  | cons u us ih =>
    rw [List.zipIdx_cons, List.map_cons]
    by_cases hu : valid u
    · rw [List.find?_cons_of_neg (by simp [hu]), ih, List.takeWhile_cons_of_pos hu,
        List.length_cons, List.getElem?_cons_succ, Nat.add_assoc, Nat.add_comm 1]
    · rw [List.find?_cons_of_pos (by simp [hu]), List.takeWhile_cons_of_neg hu]
      rfl

lemma find?_cells : (cells w f).find? (fun c => !valid c.2) =
    f.mappedByteBuffer[(f.mappedByteBuffer.takeWhile valid).length]?.map fun u =>
      (f.fileFromOffset + w * (f.mappedByteBuffer.takeWhile valid).length, u) := by
  have h := find?_zipIdx valid f.mappedByteBuffer (fun i => f.fileFromOffset + w * i) 0
  rwa [Nat.zero_add] at h

lemma length_takeWhile_lt (h : ¬ AllValid valid f) :
    (f.mappedByteBuffer.takeWhile valid).length < f.mappedByteBuffer.length := by
  refine Nat.lt_of_le_of_ne (List.takeWhile_prefix valid).length_le fun hlen => h ?_
  exact List.takeWhile_eq_self_iff.mp ((List.takeWhile_prefix valid).eq_of_length hlen)

/-- **The end of the run**, in the file it lies in. -/
lemma EndsIn.endOfRun_eq (h : EndsIn valid files front f back)
    (hf : AllValid valid f → w * f.mappedByteBuffer.length = size) :
    endOfRun w size valid files =
      f.fileFromOffset + w * (f.mappedByteBuffer.takeWhile valid).length := by
  have hnone : ∀ {g}, AllValid valid g → (cells w g).find? (fun c => !valid c.2) = none := by
    intro g hg
    rw [find?_cells, takeWhile_of_allValid hg, List.getElem?_eq_none_iff.mpr le_rfl]
    rfl
  have hfront : (front.flatMap (cells w)).find? (fun c => !valid c.2) = none := by
    rw [List.find?_flatMap, List.findSome?_eq_none_iff]
    exact fun g hg => hnone (h.front g hg)
  rw [endOfRun, h.files_eq, List.flatMap_append, List.find?_append, hfront, Option.none_or,
    List.flatMap_cons, List.find?_append]
  by_cases hvalid : AllValid valid f
  · have hback := h.stop.resolve_left (not_not_intro hvalid)
    rw [hnone hvalid, hback, List.getLast?_concat, takeWhile_of_allValid hvalid, hf hvalid]
    rfl
  · rw [find?_cells, List.getElem?_eq_getElem (length_takeWhile_lt hvalid)]
    rfl

/-- Where files follow each other without a gap, the run ends its own length behind its start. -/
lemma EndsIn.endOfRun_chain (h : EndsIn valid files front f back)
    (hfront : ∀ g ∈ front, w * g.mappedByteBuffer.length = size)
    (hf : AllValid valid f → w * f.mappedByteBuffer.length = size)
    (hchain : files.IsChain fun g g' => g'.fileFromOffset = g.fileFromOffset + size)
    {first : MapedFile (List U)} (hfirst : files.head? = some first) :
    endOfRun w size valid files = first.fileFromOffset + w * (run valid files).length := by
  rw [h.endOfRun_eq hf, h.run_eq, List.length_append, Nat.mul_add, ← Nat.add_assoc]
  rw [h.files_eq] at hchain hfirst
  congr 1
  clear h
  induction front generalizing first with
  | nil => rw [← Option.some.inj hfirst]; rfl
  | cons g front ih =>
    obtain ⟨hg, hfront⟩ := List.forall_mem_cons.mp hfront
    obtain ⟨next, rest, hrest⟩ := List.exists_cons_of_ne_nil
      (List.append_ne_nil_of_right_ne_nil front (List.cons_ne_nil f back))
    rw [List.cons_append, hrest, List.isChain_cons_cons] at hchain
    rw [ih hfront (hrest ▸ hchain.2) (by rw [hrest]; rfl), hchain.1, ← Option.some.inj hfirst,
      List.flatMap_cons, List.length_append, Nat.mul_add, hg, Nat.add_assoc]

end Run

/-! ### What the loops compute -/

section Reading

variable {w size i : ℕ} {valid : U → Bool} {note : A → U → A} {a : A} {us : List U}
  {f : MapedFile (List U)} {files front back : List (MapedFile (List U))}

lemma step_le (hw : 0 < w) {u : U} (hle : i + w * (u :: us).length ≤ size) :
    i < size ∧ i + w + w * us.length ≤ size := by
  rw [List.length_cons, Nat.mul_succ] at hle
  omega

lemma readUnits_of_stop (hw : 0 < w) (hle : i + w * us.length ≤ size)
    (h : ¬ ∀ u ∈ us, valid u) :
    readUnits w size valid note i i a us =
      some (i + w * (us.takeWhile valid).length, (us.takeWhile valid).foldl note a) := by
  induction us generalizing i a with
  | nil => exact absurd (by simp) h
  | cons u us ih =>
    obtain ⟨hlt, hle⟩ := step_le hw hle
    rw [readUnits, if_pos hlt]
    by_cases hu : valid u
    · rw [if_pos hu, ih hle fun hall => h (List.forall_mem_cons.mpr ⟨hu, hall⟩),
        List.takeWhile_cons_of_pos hu, List.length_cons, List.foldl_cons, Nat.mul_succ,
        Nat.add_comm (w * _), Nat.add_assoc]
    · rw [if_neg hu, List.takeWhile_cons_of_neg hu]
      rfl

lemma readUnits_of_valid (hw : 0 < w) (hle : i + w * us.length ≤ size) (h : ∀ u ∈ us, valid u) :
    readUnits w size valid note i i a us =
      if i + w * us.length < size then none else some (i + w * us.length, us.foldl note a) := by
  induction us generalizing i a with
  | nil => rfl
  | cons u us ih =>
    obtain ⟨hlt, hle⟩ := step_le hw hle
    obtain ⟨hu, hus⟩ := List.forall_mem_cons.mp h
    rw [readUnits, if_pos hlt, if_pos hu, ih hle hus, List.length_cons, List.foldl_cons,
      Nat.mul_succ, Nat.add_comm (w * _), Nat.add_assoc]

/-- A file that is valid to its end leads to the next one. -/
lemma readFiles_of_valid (hw : 0 < w) (hfull : w * f.mappedByteBuffer.length = size)
    (hf : AllValid valid f) (hne : files ≠ []) :
    readFiles w size valid note a (f :: files) =
      readFiles w size valid note (f.mappedByteBuffer.foldl note a) files := by
  rw [readFiles, readUnits_of_valid hw (by omega) hf, if_neg (by omega)]
  simp only [Nat.zero_add]
  rw [if_pos hfull, if_neg (by simpa using hne)]

/-- The last file that is read. -/
lemma readFiles_of_stop (hw : 0 < w) (hle : w * f.mappedByteBuffer.length ≤ size)
    (hf : AllValid valid f → w * f.mappedByteBuffer.length = size)
    (hstop : ¬ AllValid valid f ∨ files = []) :
    readFiles w size valid note a (f :: files) =
      some (f.fileFromOffset + w * (f.mappedByteBuffer.takeWhile valid).length,
        (f.mappedByteBuffer.takeWhile valid).foldl note a) := by
  rw [readFiles]
  by_cases hvalid : AllValid valid f
  · have hfull := hf hvalid
    rw [readUnits_of_valid hw (by omega) hvalid, if_neg (by omega), takeWhile_of_allValid hvalid,
      hstop.resolve_left (not_not_intro hvalid)]
    simp only [Nat.zero_add]
    rw [if_pos hfull]
    rfl
  · have hlt := Nat.mul_lt_mul_of_pos_left (length_takeWhile_lt hvalid) hw
    rw [readUnits_of_stop hw (by omega) hvalid]
    simp only [Nat.zero_add]
    rw [if_neg (by omega)]

/-- **The loops walk the run.** -/
lemma EndsIn.readFiles_eq (h : EndsIn valid files front f back) (hw : 0 < w)
    (hfront : ∀ g ∈ front, w * g.mappedByteBuffer.length = size)
    (hle : w * f.mappedByteBuffer.length ≤ size)
    (hf : AllValid valid f → w * f.mappedByteBuffer.length = size) :
    readFiles w size valid note a files =
      some (endOfRun w size valid files, (run valid files).foldl note a) := by
  rw [h.endOfRun_eq hf, h.run_eq, List.foldl_append, h.files_eq]
  obtain ⟨-, hvalid, hstop⟩ := h
  induction front generalizing a with
  | nil => exact readFiles_of_stop hw hle hf hstop
  | cons g front ih =>
    obtain ⟨hg, hfront⟩ := List.forall_mem_cons.mp hfront
    obtain ⟨hgv, hvalid⟩ := List.forall_mem_cons.mp hvalid
    rw [List.cons_append, readFiles_of_valid hw hg hgv (by simp), ih hfront hvalid,
      List.flatMap_cons, List.foldl_append]

end Reading

/-! ### The files of a queue -/

section Queue

variable {w : ℕ} {valid : U → Bool} {note : A → U → A} {a : A} {q : MapedFileQueue (List U)}
  {f : MapedFile (List U)} {files front back : List (MapedFile (List U))}

/-- Files of one size, in order; each holds the whole units it has room for. -/
structure Laid (w : ℕ) (q : MapedFileQueue (List U)) : Prop where
  starts : ∀ f ∈ q.mapedFiles, q.mapedFileSize ∣ f.fileFromOffset
  ordered : q.mapedFiles.Pairwise fun f g => f.fileFromOffset < g.fileFromOffset
  mapped : ∀ f ∈ q.mapedFiles, f.mappedByteBuffer.length = q.mapedFileSize / w

/-- A loaded file counts as written to its end. -/
structure Loaded (w : ℕ) (q : MapedFileQueue (List U)) : Prop extends Laid w q where
  wrote : ∀ f ∈ q.mapedFiles, f.wrotePostion = q.mapedFileSize

/-- The reading stays inside the files: they end with a unit, or the first one that is read holds
a unit that is not valid. -/
def Inside (w size : ℕ) (valid : U → Bool) (files : List (MapedFile (List U))) : Prop :=
  w ∣ size ∨ ∀ f ∈ files.head?, ¬ AllValid valid f

lemma Laid.mul_le (h : Laid w q) (hf : f ∈ q.mapedFiles) :
    w * f.mappedByteBuffer.length ≤ q.mapedFileSize := by
  rw [h.mapped f hf]
  exact Nat.mul_div_le _ _

lemma Laid.mul_eq (h : Laid w q) (hdvd : w ∣ q.mapedFileSize) (hf : f ∈ q.mapedFiles) :
    w * f.mappedByteBuffer.length = q.mapedFileSize := by
  rw [h.mapped f hf, Nat.mul_div_cancel' hdvd]

/-- A file begins behind the end of every file in front of it. -/
lemma Laid.end_le (h : Laid w q) (hfiles : q.mapedFiles = front ++ f :: back) :
    (∀ g ∈ front, g.fileFromOffset + q.mapedFileSize ≤ f.fileFromOffset) ∧
      ∀ g ∈ back, f.fileFromOffset + q.mapedFileSize ≤ g.fileFromOffset := by
  have key : ∀ {g g' : MapedFile (List U)}, g ∈ q.mapedFiles → g' ∈ q.mapedFiles →
      g.fileFromOffset < g'.fileFromOffset →
      g.fileFromOffset + q.mapedFileSize ≤ g'.fileFromOffset := by
    intro g g' hg hg' hlt
    obtain ⟨k, hk⟩ := h.starts g hg
    obtain ⟨k', hk'⟩ := h.starts g' hg'
    rw [hk, hk'] at hlt ⊢
    rw [← Nat.mul_succ]
    exact Nat.mul_le_mul_left _ (Nat.lt_of_mul_lt_mul_left hlt)
  have hord := h.ordered
  rw [hfiles, List.pairwise_append, List.pairwise_cons] at hord
  obtain ⟨-, ⟨hback, -⟩, hfront⟩ := hord
  refine ⟨fun g hg => key ?_ ?_ (hfront g hg f (by simp)), fun g hg => key ?_ ?_ (hback g hg)⟩
  · simp [hfiles, hg]
  · simp [hfiles]
  · simp [hfiles]
  · simp [hfiles, hg]

/-- A file that is cut at position `o`. -/
def cutFile (size o : ℕ) (f : MapedFile (List U)) : MapedFile (List U) :=
  if o < size then
    { f with wrotePostion := o, committedPosition := o, forced := min f.forced o }
  else f

@[simp] lemma cutFile_from (size o : ℕ) (f : MapedFile (List U)) :
    (cutFile size o f).fileFromOffset = f.fileFromOffset := by
  unfold cutFile
  split <;> rfl

@[simp] lemma cutFile_memory (size o : ℕ) (f : MapedFile (List U)) :
    (cutFile size o f).mappedByteBuffer = f.mappedByteBuffer := by
  unfold cutFile
  split <;> rfl

lemma cutFile_cutFile (size o : ℕ) (f : MapedFile (List U)) :
    cutFile size o (cutFile size o f) = cutFile size o f := by
  unfold cutFile
  split
  · simp
  · rfl

/-- **Cutting a queue.** What lies behind the cut is removed, what lies in front stays. -/
lemma Laid.truncate_eq (h : Laid w q) (hfiles : q.mapedFiles = front ++ f :: back) {o : ℕ}
    (ho : o < q.mapedFileSize ∨ o = q.mapedFileSize ∧ back = []) :
    (q.truncateDirtyFiles (f.fileFromOffset + o)).mapedFiles =
      front ++ [cutFile q.mapedFileSize o f] := by
  obtain ⟨hfront, hback⟩ := h.end_le hfiles
  have hstay : front.filterMap (q.truncateFile (f.fileFromOffset + o)) = front := by
    conv_rhs => rw [← List.filterMap_some (l := front)]
    refine List.filterMap_congr fun g hg => ?_
    have := hfront g hg
    rw [MapedFileQueue.truncateFile, if_neg (by omega)]
  have hgone : back.filterMap (q.truncateFile (f.fileFromOffset + o)) = [] := by
    refine List.filterMap_eq_nil_iff.mpr fun g hg => ?_
    have := hback g hg
    rcases ho with ho | ⟨-, rfl⟩
    · have := q.size_pos
      rw [MapedFileQueue.truncateFile, if_pos (by omega), if_neg (by omega)]
    · exact absurd hg List.not_mem_nil
  have hcut : q.truncateFile (f.fileFromOffset + o) f = some (cutFile q.mapedFileSize o f) := by
    rw [MapedFileQueue.truncateFile, cutFile]
    rcases ho with ho | ⟨rfl, -⟩
    · obtain ⟨k, hk⟩ := h.starts f (by simp [hfiles])
      have hmod : (f.fileFromOffset + o) % q.mapedFileSize = o := by
        rw [hk, Nat.mul_add_mod, Nat.mod_eq_of_lt ho]
      rw [if_pos (by omega), if_pos (by omega), if_pos ho, hmod]
    · rw [if_neg (lt_irrefl _), if_neg (lt_irrefl _)]
  rw [MapedFileQueue.truncateDirtyFiles, hfiles, List.filterMap_append, hstay,
    List.filterMap_cons, hcut, hgone]

/-! ### One recovery -/

lemma take_append_lastThree (files : List (MapedFile (List U))) :
    files.take (files.length - 3) ++ lastThree files = files := List.take_append_drop _ _

lemma lastThree_ne_nil (hne : files ≠ []) : lastThree files ≠ [] := by
  rw [lastThree, Ne, List.drop_eq_nil_iff]
  have := List.length_pos_iff.mpr hne
  omega

lemma mem_of_mem_lastThree (hf : f ∈ lastThree files) : f ∈ files := List.mem_of_mem_drop hf

/-- The files that are read to their end hold nothing but whole units. -/
lemma EndsIn.full (h : EndsIn valid (lastThree q.mapedFiles) front f back) (hl : Laid w q)
    (hin : Inside w q.mapedFileSize valid (lastThree q.mapedFiles)) :
    (∀ g ∈ front, w * g.mappedByteBuffer.length = q.mapedFileSize) ∧
      (AllValid valid f → w * f.mappedByteBuffer.length = q.mapedFileSize) := by
  have hmem : ∀ {g}, g ∈ front ++ f :: back → g ∈ q.mapedFiles := fun hg =>
    mem_of_mem_lastThree (h.files_eq ▸ hg)
  rcases hin with hdvd | hhead
  · exact ⟨fun g hg => hl.mul_eq hdvd (hmem (List.mem_append_left _ hg)),
      fun _ => hl.mul_eq hdvd (hmem (by simp))⟩
  · rw [h.files_eq] at hhead
    cases hfront : front with
    | nil =>
      rw [hfront] at hhead
      exact ⟨by simp, fun hf => absurd hf (hhead f rfl)⟩
    | cons g front' =>
      rw [hfront] at hhead
      exact absurd (h.front g (by simp [hfront])) (hhead g rfl)

/-- **Recovery cuts the queue where the run ends.** -/
lemma EndsIn.recoverLoop_eq (h : EndsIn valid (lastThree q.mapedFiles) front f back)
    (hl : Laid w q) (hw : 0 < w)
    (hin : Inside w q.mapedFileSize valid (lastThree q.mapedFiles)) :
    recoverLoop w valid note q a =
      some (q.truncateDirtyFiles (endOfRun w q.mapedFileSize valid (lastThree q.mapedFiles)),
        (run valid (lastThree q.mapedFiles)).foldl note a) := by
  obtain ⟨hfront, hf⟩ := h.full hl hin
  have hmem : f ∈ lastThree q.mapedFiles := by simp [h.files_eq]
  have hne : ¬ q.mapedFiles.isEmpty := by
    intro hnil
    rw [List.isEmpty_iff.mp hnil] at hmem
    exact absurd hmem (by simp [lastThree])
  rw [recoverLoop, if_neg hne,
    h.readFiles_eq hw hfront (hl.mul_le (mem_of_mem_lastThree hmem)) hf]
  rfl

/-- Where the run ends in its last file. -/
def cutAt (w : ℕ) (valid : U → Bool) (f : MapedFile (List U)) : ℕ :=
  w * (f.mappedByteBuffer.takeWhile valid).length

lemma EndsIn.truncate_eq (h : EndsIn valid (lastThree q.mapedFiles) front f back)
    (hl : Laid w q) (hw : 0 < w)
    (hin : Inside w q.mapedFileSize valid (lastThree q.mapedFiles)) :
    (q.truncateDirtyFiles (endOfRun w q.mapedFileSize valid (lastThree q.mapedFiles))).mapedFiles =
      q.mapedFiles.take (q.mapedFiles.length - 3) ++ front ++
        [cutFile q.mapedFileSize (cutAt w valid f) f] := by
  obtain ⟨hfront, hf⟩ := h.full hl hin
  have hmem : f ∈ q.mapedFiles := mem_of_mem_lastThree (by simp [h.files_eq])
  have hfiles : q.mapedFiles =
      q.mapedFiles.take (q.mapedFiles.length - 3) ++ front ++ f :: back := by
    rw [List.append_assoc, ← h.files_eq, take_append_lastThree]
  rw [h.endOfRun_eq hf]
  refine hl.truncate_eq hfiles ?_
  by_cases hvalid : AllValid valid f
  · rw [takeWhile_of_allValid hvalid, hf hvalid]
    exact .inr ⟨rfl, h.stop.resolve_left (not_not_intro hvalid)⟩
  · have hlt := Nat.mul_lt_mul_of_pos_left (length_takeWhile_lt hvalid) hw
    exact .inl (lt_of_lt_of_le hlt (hl.mul_le hmem))

/-- A recovered queue ends where the run ends. -/
lemma EndsIn.getMaxOffset_eq (h : EndsIn valid (lastThree q.mapedFiles) front f back)
    (hl : Loaded w q) (hw : 0 < w)
    (hin : Inside w q.mapedFileSize valid (lastThree q.mapedFiles)) :
    (q.truncateDirtyFiles
        (endOfRun w q.mapedFileSize valid (lastThree q.mapedFiles))).getMaxOffset =
      endOfRun w q.mapedFileSize valid (lastThree q.mapedFiles) := by
  have hmem : f ∈ q.mapedFiles := mem_of_mem_lastThree (by simp [h.files_eq])
  obtain ⟨-, hf⟩ := h.full hl.toLaid hin
  rw [MapedFileQueue.getMaxOffset, h.truncate_eq hl.toLaid hw hin, List.getLast?_concat,
    h.endOfRun_eq hf]
  simp only [cutFile_from]
  congr 1
  unfold cutFile
  split
  · rfl
  · rename_i hnot
    have hle : cutAt w valid f ≤ q.mapedFileSize :=
      le_trans (Nat.mul_le_mul_left w (List.takeWhile_prefix valid).length_le) (hl.mul_le hmem)
    rw [hl.wrote f hmem]
    exact (Nat.le_antisymm hle (Nat.le_of_not_lt hnot)).symm

/-- Reading a file that ends within a unit fails. -/
lemma recoverLoop_none (hl : Laid w q) (hw : 0 < w)
    (hin : ¬ Inside w q.mapedFileSize valid (lastThree q.mapedFiles)) :
    recoverLoop w valid note q a = none := by
  obtain ⟨hdvd, hhead⟩ := not_or.mp hin
  push Not at hhead
  obtain ⟨f, hf, hvalid⟩ := hhead
  have hmem := List.mem_of_mem_head? hf
  have hne : ¬ q.mapedFiles.isEmpty := by
    intro hnil
    exact List.ne_nil_of_mem (mem_of_mem_lastThree hmem) (List.isEmpty_iff.mp hnil)
  obtain ⟨rest, hrest⟩ := List.head?_eq_some_iff.mp hf
  have hlen := hl.mapped f (mem_of_mem_lastThree hmem)
  have hle := hl.mul_le (mem_of_mem_lastThree hmem)
  have hlt : w * f.mappedByteBuffer.length < q.mapedFileSize :=
    Nat.lt_of_le_of_ne hle fun heq => hdvd (heq ▸ Nat.dvd_mul_right _ _)
  rw [recoverLoop, if_neg hne, hrest, readFiles, readUnits_of_valid hw (by omega) hvalid,
    if_pos (by omega)]
  rfl

/-! ### A second recovery -/

/-- The files a second recovery starts at that the first one did not see. -/
def unseen (files files' : List (MapedFile (List U))) : List (MapedFile (List U)) :=
  (files.take (files.length - 3)).drop (files'.length - 3)

lemma Laid.cut (h : Laid w q) (hfiles : q.mapedFiles = front ++ f :: back)
    {q' : MapedFileQueue (List U)} (hsize : q'.mapedFileSize = q.mapedFileSize) {o : ℕ}
    (hfiles' : q'.mapedFiles = front ++ [cutFile q.mapedFileSize o f]) : Laid w q' := by
  obtain ⟨hstarts, hord, hmapped⟩ := h
  rw [hfiles] at hstarts hord hmapped
  have hmem : ∀ {p : MapedFile (List U) → Prop}, (∀ g ∈ front ++ f :: back, p g) →
      p (cutFile q.mapedFileSize o f) → ∀ g ∈ q'.mapedFiles, p g := by
    intro p hp hcut g hg
    rw [hfiles'] at hg
    rcases List.mem_append.mp hg with hg | hg
    · exact hp g (List.mem_append_left _ hg)
    · exact List.mem_singleton.mp hg ▸ hcut
  refine ⟨?_, ?_, ?_⟩
  · rw [hsize]
    refine hmem hstarts ?_
    rw [cutFile_from]
    exact hstarts f (by simp)
  · rw [hfiles']
    rw [List.pairwise_append] at hord ⊢
    refine ⟨hord.1, List.pairwise_singleton _ _, fun g hg g' hg' => ?_⟩
    rw [List.mem_singleton.mp hg', cutFile_from]
    exact hord.2.2 g hg f (by simp)
  · rw [hsize]
    refine hmem hmapped ?_
    rw [cutFile_memory]
    exact hmapped f (by simp)

lemma allValid_cutFile {size o : ℕ} : AllValid valid (cutFile size o f) ↔ AllValid valid f := by
  rw [AllValid, cutFile_memory]
  exact Iff.rfl

/-- The last three files of a recovered queue. -/
lemma lastThree_cut {files' : List (MapedFile (List U))} {size o : ℕ}
    (hfiles : lastThree files = front ++ f :: back)
    (hfiles' : files' = files.take (files.length - 3) ++ front ++ [cutFile size o f]) :
    lastThree files' = unseen files files' ++ front ++ [cutFile size o f] := by
  have hlen : (lastThree files).length = front.length + (back.length + 1) := by
    rw [hfiles, List.length_append, List.length_cons]
  have hle : files'.length - 3 ≤ (files.take (files.length - 3)).length := by
    rw [hfiles', List.length_append, List.length_append, List.length_take, List.length_singleton]
    rw [lastThree, List.length_drop] at hlen
    omega
  rw [lastThree, unseen]
  generalize files'.length - 3 = n at hle
  rw [hfiles', List.append_assoc, List.append_assoc, List.drop_append_of_le_length hle]

lemma truncateDirtyFiles_eq_self {offset : ℕ}
    (h : (q.truncateDirtyFiles offset).mapedFiles = q.mapedFiles) :
    q.truncateDirtyFiles offset = q := by
  cases q
  exact congrArg (MapedFileQueue.mk _ _ · _ _) h

/-- **The second recovery.** It leaves what the first one left exactly when the files in front of
the first one's are valid and end with a unit. -/
lemma EndsIn.again_iff (h : EndsIn valid (lastThree q.mapedFiles) front f back)
    (hl : Laid w q) (hw : 0 < w)
    (hin : Inside w q.mapedFileSize valid (lastThree q.mapedFiles))
    {q' : MapedFileQueue (List U)}
    (hq' : q' =
      q.truncateDirtyFiles (endOfRun w q.mapedFileSize valid (lastThree q.mapedFiles)))
    {b c : A} :
    recoverLoop w valid note q' b = some (q', c) ↔
      (∀ g ∈ unseen q.mapedFiles q'.mapedFiles, AllValid valid g) ∧
      (w ∣ q.mapedFileSize ∨ unseen q.mapedFiles q'.mapedFiles = []) ∧
      ((unseen q.mapedFiles q'.mapedFiles).flatMap MapedFile.mappedByteBuffer ++
        run valid (lastThree q.mapedFiles)).foldl note b = c := by
  have hsize : q'.mapedFileSize = q.mapedFileSize := by rw [hq']; rfl
  have hfiles' : q'.mapedFiles = q.mapedFiles.take (q.mapedFiles.length - 3) ++ front ++
      [cutFile q.mapedFileSize (cutAt w valid f) f] := by rw [hq']; exact h.truncate_eq hl hw hin
  have hfiles : q.mapedFiles = q.mapedFiles.take (q.mapedFiles.length - 3) ++ front ++
      f :: back := by rw [List.append_assoc, ← h.files_eq, take_append_lastThree]
  have hl' : Laid w q' := hl.cut hfiles hsize hfiles'
  have hlast := lastThree_cut h.files_eq hfiles'
  obtain ⟨-, hf⟩ := h.full hl hin
  set extra := unseen q.mapedFiles q'.mapedFiles
  constructor
  · intro hagain
    have hin' : Inside w q'.mapedFileSize valid (lastThree q'.mapedFiles) := by
      by_contra hnot
      rw [recoverLoop_none hl' hw hnot] at hagain
      cases hagain
    obtain ⟨front', f', back', h'⟩ :=
      exists_endsIn valid (show lastThree q'.mapedFiles ≠ [] by simp [hlast])
    rw [h'.recoverLoop_eq hl' hw hin', Option.some.injEq, Prod.mk.injEq] at hagain
    obtain ⟨hsame, hnote⟩ := hagain
    -- nothing is removed, so the second run ends in the same file
    have hlen := h'.truncate_eq hl' hw hin'
    rw [hsame] at hlen
    have hback : back' = [] := by
      have hcount := congrArg List.length hlen
      have htotal := congrArg List.length (take_append_lastThree q'.mapedFiles)
      rw [h'.files_eq] at htotal
      simp only [List.length_append, List.length_cons, List.length_nil] at hcount htotal
      exact List.eq_nil_of_length_eq_zero (by omega)
    have hsplit := h'.files_eq
    rw [hback, hlast] at hsplit
    obtain ⟨hfront', hf'⟩ := List.append_inj' hsplit rfl
    obtain rfl := List.singleton_inj.mp hf'
    have hextra : ∀ g ∈ extra, AllValid valid g := fun g hg =>
      h'.front g (hfront' ▸ List.mem_append_left _ hg)
    refine ⟨hextra, ?_, ?_⟩
    · rcases hin' with hdvd | hhead
      · exact .inl (hsize ▸ hdvd)
      · rw [hlast] at hhead
        rcases hcase : extra with _ | ⟨g, extra'⟩
        · exact .inr rfl
        · rw [hcase] at hhead
          exact absurd (hextra g (by simp [hcase])) (hhead g rfl)
    · rw [← hnote, h'.run_eq, ← hfront', cutFile_memory, h.run_eq, List.flatMap_append,
        List.append_assoc]
  · rintro ⟨hextra, hwhole, rfl⟩
    have h' : EndsIn valid (lastThree q'.mapedFiles) (extra ++ front)
        (cutFile q.mapedFileSize (cutAt w valid f) f) [] := by
      refine ⟨hlast, fun g hg => ?_, .inr rfl⟩
      rcases List.mem_append.mp hg with hg | hg
      · exact hextra g hg
      · exact h.front g hg
    have hin' : Inside w q'.mapedFileSize valid (lastThree q'.mapedFiles) := by
      rw [hsize]
      rcases hin with hdvd | hhead
      · exact .inl hdvd
      · refine hwhole.imp id fun hnil => ?_
        rw [hlast, hnil, List.nil_append]
        rw [h.files_eq] at hhead
        cases front with
        | nil =>
          intro g hg
          rw [← Option.some.inj hg, allValid_cutFile]
          exact hhead f rfl
        | cons g front => exact hhead
    obtain ⟨-, hf'⟩ := h'.full hl' hin'
    have hend : endOfRun w q'.mapedFileSize valid (lastThree q'.mapedFiles) =
        endOfRun w q.mapedFileSize valid (lastThree q.mapedFiles) := by
      rw [h'.endOfRun_eq hf', h.endOfRun_eq hf, cutFile_memory, cutFile_from]
    have hsame : q'.truncateDirtyFiles
        (endOfRun w q'.mapedFileSize valid (lastThree q'.mapedFiles)) = q' := by
      have hcut := h'.truncate_eq hl' hw hin'
      have hat : cutAt w valid (cutFile q.mapedFileSize (cutAt w valid f) f) =
          cutAt w valid f := by rw [cutAt, cutAt, cutFile_memory]
      rw [hat, hsize, cutFile_cutFile, List.append_assoc, ← hlast, take_append_lastThree] at hcut
      rw [hsize]
      exact truncateDirtyFiles_eq_self hcut
    rw [h'.recoverLoop_eq hl' hw hin', hsame, h'.run_eq, h.run_eq, cutFile_memory,
      List.flatMap_append, List.append_assoc]

/-- What was found in front of the files of a first recovery does not stop a second one. -/
def Repeats (w : ℕ) (valid : U → Bool) (q q' : MapedFileQueue (List U)) : Prop :=
  (∀ g ∈ unseen q.mapedFiles q'.mapedFiles, AllValid valid g) ∧
    (w ∣ q.mapedFileSize ∨ unseen q.mapedFiles q'.mapedFiles = [])

/-- **Recovery of loaded files**, and the second one. -/
lemma recoverLoop_spec (note : A → U → A) (a : A) (hl : Loaded w q) (hw : 0 < w)
    (hin : Inside w q.mapedFileSize valid (lastThree q.mapedFiles)) :
    ∃ q', recoverLoop w valid note q a =
        some (q', (run valid (lastThree q.mapedFiles)).foldl note a) ∧
      q'.mapedFiles.isEmpty = q.mapedFiles.isEmpty ∧
      q'.getMaxOffset = endOfRun w q.mapedFileSize valid (lastThree q.mapedFiles) ∧
      ∀ b c, recoverLoop w valid note q' b = some (q', c) ↔ Repeats w valid q q' ∧
        ((unseen q.mapedFiles q'.mapedFiles).flatMap MapedFile.mappedByteBuffer ++
          run valid (lastThree q.mapedFiles)).foldl note b = c := by
  by_cases hnil : q.mapedFiles = []
  · refine ⟨q, ?_, rfl, ?_, fun b c => ?_⟩
    · rw [recoverLoop, hnil]
      rfl
    · rw [MapedFileQueue.getMaxOffset, hnil]
      rfl
    · rw [recoverLoop, Repeats, hnil]
      simp [unseen, lastThree, run]
  · obtain ⟨front, f, back, h⟩ := exists_endsIn valid (lastThree_ne_nil hnil)
    have hfiles := h.truncate_eq hl.toLaid hw hin
    refine ⟨_, h.recoverLoop_eq hl.toLaid hw hin, ?_, h.getMaxOffset_eq hl hw hin, fun b c => ?_⟩
    · rw [hfiles, List.isEmpty_eq_false_iff.mpr hnil]
      simp
    · rw [h.again_iff hl.toLaid hw hin rfl, Repeats, and_assoc]

end Queue

/-! ### The consume queue and the state table -/

lemma foldl_offset (us : List CQUnit) (a : Int64) :
    us.foldl (fun _ u => u.offset) a = (us.getLast?.map CQUnit.offset).getD a := by
  induction us using List.reverseRecOn with
  | nil => rfl
  | append_singleton us u => rw [List.foldl_concat, List.getLast?_concat]; rfl

lemma recover_eq_self_iff {cq : ConsumeQueue} : recover cq = some cq ↔
    recoverLoop CQStoreUnitSize CQUnit.isValid (fun _ u => u.offset) cq.mapedFileQueue
      cq.maxPhysicOffset = some (cq.mapedFileQueue, cq.maxPhysicOffset) := by
  rw [recover, Option.map_eq_some_iff]
  constructor
  · rintro ⟨⟨q, a⟩, hr, heq⟩
    rw [hr, ← congrArg ConsumeQueue.mapedFileQueue heq, ← congrArg ConsumeQueue.maxPhysicOffset heq]
  · exact fun h => ⟨_, h, rfl⟩

/-- The note of a run stands through a second one, unless the first run was empty. -/
lemma foldl_offset_eq_iff {us vs : List CQUnit} {a : Int64} :
    (us ++ vs).foldl (fun _ u => u.offset) (vs.foldl (fun _ u => u.offset) a) =
        vs.foldl (fun _ u => u.offset) a ↔
      (vs = [] → ∀ u ∈ us.getLast?, u.offset = a) := by
  rcases List.eq_nil_or_concat vs with rfl | ⟨vs, v, rfl⟩
  · rw [List.append_nil, List.foldl_nil, foldl_offset]
    cases us.getLast? with
    | none => simp
    | some u => simp
  · simp

/-- What recovery leaves of a consume queue, and when running it again changes nothing. -/
structure Recovered (cq cq' : ConsumeQueue) : Prop where
  max_offset : cq'.mapedFileQueue.getMaxOffset = endOfRun CQStoreUnitSize
    cq.mapedFileQueue.mapedFileSize CQUnit.isValid (lastThree cq.mapedFileQueue.mapedFiles)
  max_physic : cq'.maxPhysicOffset =
    ((run CQUnit.isValid (lastThree cq.mapedFileQueue.mapedFiles)).getLast?.map
      CQUnit.offset).getD cq.maxPhysicOffset
  again : recover cq' = some cq' ↔
    Repeats CQStoreUnitSize CQUnit.isValid cq.mapedFileQueue cq'.mapedFileQueue ∧
    (run CQUnit.isValid (lastThree cq.mapedFileQueue.mapedFiles) = [] →
      ∀ u ∈ ((unseen cq.mapedFileQueue.mapedFiles cq'.mapedFileQueue.mapedFiles).flatMap
        MapedFile.mappedByteBuffer).getLast?, u.offset = cq.maxPhysicOffset)

lemma exists_recovered {cq : ConsumeQueue} (h : Loaded CQStoreUnitSize cq.mapedFileQueue)
    (hin : Inside CQStoreUnitSize cq.mapedFileQueue.mapedFileSize CQUnit.isValid
      (lastThree cq.mapedFileQueue.mapedFiles)) :
    ∃ cq', recover cq = some cq' ∧ Recovered cq cq' := by
  obtain ⟨q', hrec, -, hmax, hagain⟩ := recoverLoop_spec (fun _ u => u.offset)
    cq.maxPhysicOffset h (by decide) hin
  refine ⟨_, by rw [recover, hrec]; rfl, hmax, foldl_offset _ _, ?_⟩
  rw [recover_eq_self_iff, hagain, foldl_offset_eq_iff]

/-- What recovery leaves of the state table, and when running it again changes nothing. -/
structure TableRecovered (t t' : StateTable) : Prop where
  max_offset : t'.tranStateTable.getMaxOffset = endOfRun TSStoreUnitSize
    t.tranStateTable.mapedFileSize Row.isValid (lastThree t.tranStateTable.mapedFiles)
  offset : t'.tranStateTableOffset =
    if t.tranStateTable.mapedFiles = [] then t.tranStateTableOffset
    else Int64.ofNat (t'.tranStateTable.getMaxOffset / TSStoreUnitSize)
  again : recoverStateTableNormal t' = some t' ↔
    Repeats TSStoreUnitSize Row.isValid t.tranStateTable t'.tranStateTable

lemma recoverStateTableNormal_eq_self_iff {q : Table} (hne : q.mapedFiles ≠ []) :
    recoverStateTableNormal ⟨q, Int64.ofNat (q.getMaxOffset / TSStoreUnitSize)⟩ =
      some ⟨q, Int64.ofNat (q.getMaxOffset / TSStoreUnitSize)⟩ ↔
    recoverLoop TSStoreUnitSize Row.isValid (fun _ _ => ()) q () = some (q, ()) := by
  rw [recoverStateTableNormal, Option.map_eq_some_iff, List.isEmpty_eq_false_iff.mpr hne]
  constructor
  · rintro ⟨⟨q', _⟩, hr, heq⟩
    have hq : q' = q := congrArg StateTable.tranStateTable heq
    rw [hr, hq]
  · exact fun hr => ⟨_, hr, rfl⟩

lemma exists_tableRecovered {t : StateTable} (h : Loaded TSStoreUnitSize t.tranStateTable)
    (hin : Inside TSStoreUnitSize t.tranStateTable.mapedFileSize Row.isValid
      (lastThree t.tranStateTable.mapedFiles)) :
    ∃ t', recoverStateTableNormal t = some t' ∧ TableRecovered t t' := by
  obtain ⟨q', hrec, hempty, hmax, hagain⟩ := recoverLoop_spec (fun _ _ => ()) ()
    h (by decide) hin
  by_cases hnil : t.tranStateTable.mapedFiles = []
  · have hsame : recoverStateTableNormal t = some t := by
      rw [recoverStateTableNormal, recoverLoop, hnil]
      rfl
    refine ⟨t, hsame, ?_, by rw [if_pos hnil], ?_⟩
    · rw [MapedFileQueue.getMaxOffset, hnil]
      rfl
    · rw [Repeats, hnil]
      simp [hsame, unseen]
  · have hisEmpty := List.isEmpty_eq_false_iff.mpr hnil
    have hne : q'.mapedFiles ≠ [] := List.isEmpty_eq_false_iff.mp (hempty.trans hisEmpty)
    refine ⟨⟨q', Int64.ofNat (q'.getMaxOffset / TSStoreUnitSize)⟩, ?_, hmax, by rw [if_neg hnil],
      ?_⟩
    · rw [recoverStateTableNormal, hrec, Option.map_some, hisEmpty]
      rfl
    · rw [recoverStateTableNormal_eq_self_iff hne, hagain]
      exact and_iff_left rfl

/-- **Recovery of the index files.** The queue is cut where the run of valid units ends. Running
it again changes nothing exactly when the files that come into view are valid. -/
theorem recover_index_files {cq : ConsumeQueue} {t : StateTable}
    (hcq : Loaded CQStoreUnitSize cq.mapedFileQueue)
    (hcqin : Inside CQStoreUnitSize cq.mapedFileQueue.mapedFileSize CQUnit.isValid
      (lastThree cq.mapedFileQueue.mapedFiles))
    (ht : Loaded TSStoreUnitSize t.tranStateTable)
    (htin : Inside TSStoreUnitSize t.tranStateTable.mapedFileSize Row.isValid
      (lastThree t.tranStateTable.mapedFiles)) :
    (∃ cq', recover cq = some cq' ∧ Recovered cq cq') ∧
      ∃ t', recoverStateTableNormal t = some t' ∧ TableRecovered t t' :=
  ⟨exists_recovered hcq hcqin, exists_tableRecovered ht htin⟩

/-- A loaded queue of files with room for one unit. -/
def single (w : ℕ) (hw : 0 < w) (us : List U) : MapedFileQueue (List U) where
  mapedFileSize := w
  size_pos := hw
  mapedFiles := us.zipIdx.map fun c => MapedFileQueue.loadFile w (w * c.2) [c.1]
  committedWhere := 0
  storeTimestamp := 0

lemma loaded_single (w : ℕ) (hw : 0 < w) (us : List U) : Loaded w (single w hw us) where
  starts f hf := by
    obtain ⟨c, -, rfl⟩ := List.mem_map.mp hf
    exact Nat.dvd_mul_right _ _
  ordered := by
    rw [single, List.pairwise_map, List.pairwise_iff_getElem]
    intro i j hi hj hij
    simpa [MapedFileQueue.loadFile] using Nat.mul_lt_mul_of_pos_left hij hw
  mapped f hf := by
    obtain ⟨c, -, rfl⟩ := List.mem_map.mp hf
    exact (Nat.div_self hw).symm
  wrote f hf := by
    obtain ⟨c, -, rfl⟩ := List.mem_map.mp hf
    rfl

lemma pos_CQStoreUnitSize : 0 < CQStoreUnitSize := by decide

lemma pos_TSStoreUnitSize : 0 < TSStoreUnitSize := by decide

def loadedQueue (us : List CQUnit) : ConsumeQueue where
  mapedFileQueue := single CQStoreUnitSize pos_CQStoreUnitSize us

def loadedTable (rows : List Row) : StateTable :=
  ⟨single TSStoreUnitSize pos_TSStoreUnitSize rows, 0⟩

theorem recover_index_files_single :
    (∃ cq', recover (loadedQueue [⟨5, 1, 0⟩]) = some cq' ∧
      Recovered (loadedQueue [⟨5, 1, 0⟩]) cq') ∧
    ∃ t', recoverStateTableNormal (loadedTable [⟨5, 1, 0, 0, TransactionPreparedType⟩]) = some t' ∧
      TableRecovered (loadedTable [⟨5, 1, 0, 0, TransactionPreparedType⟩]) t' :=
  recover_index_files (loaded_single _ _ _) (.inl dvd_rfl) (loaded_single _ _ _) (.inl dvd_rfl)

/-- Of four blank files, the first recovery keeps two, the second one a single one. -/
theorem recover_again_changes :
    Loaded CQStoreUnitSize (loadedQueue (List.replicate 4 ⟨0, 0, 0⟩)).mapedFileQueue ∧
    ∃ cq' cq'', recover (loadedQueue (List.replicate 4 ⟨0, 0, 0⟩)) = some cq' ∧
      cq'.mapedFileQueue.getMaxOffset = 20 ∧
      recover cq' = some cq'' ∧ cq''.mapedFileQueue.getMaxOffset = 0 :=
  ⟨loaded_single _ _ _, _, _, rfl, rfl, rfl, rfl⟩

/-! ### Against the scan of whole files -/

section Scan

variable {w size : ℕ} {valid : U → Bool} {f : MapedFile (List U)}
  {files front back : List (MapedFile (List U))}

lemma EndsIn.scanUnits_eq (h : EndsIn valid files front f back) (hw : 0 < w)
    (hfront : ∀ g ∈ front, w * g.mappedByteBuffer.length = size)
    (hle : w * f.mappedByteBuffer.length ≤ size)
    (hf : AllValid valid f → w * f.mappedByteBuffer.length = size) :
    scanUnits w size valid files = (endOfRun w size valid files, run valid files) := by
  rw [h.endOfRun_eq hf, h.run_eq, h.files_eq]
  obtain ⟨-, hvalid, hstop⟩ := h
  induction front with
  | nil =>
    cases back with
    | nil => rfl
    | cons g back =>
      have hlt := Nat.mul_lt_mul_of_pos_left
        (length_takeWhile_lt (hstop.resolve_right (List.cons_ne_nil _ _))) hw
      rw [List.nil_append, scanUnits, if_neg (by omega)]
      rfl
  | cons g front ih =>
    obtain ⟨hg, hfront⟩ := List.forall_mem_cons.mp hfront
    obtain ⟨hgv, hvalid⟩ := List.forall_mem_cons.mp hvalid
    obtain ⟨g', rest, hrest⟩ := List.exists_cons_of_ne_nil
      (List.append_ne_nil_of_right_ne_nil front (List.cons_ne_nil f back))
    rw [List.cons_append, hrest, scanUnits, takeWhile_of_allValid hgv, if_pos hg, ← hrest,
      ih hfront hvalid, List.flatMap_cons, List.append_assoc]

variable {note : A → U → A} {a : A} {q : MapedFileQueue (List U)}

/-- The loops do what the scan of whole files does. -/
lemma recoverLoop_eq_recoverUnits (hl : Laid w q) (hw : 0 < w)
    (hin : Inside w q.mapedFileSize valid (lastThree q.mapedFiles)) :
    recoverLoop w valid note q a =
      some ((recoverUnits w valid q).1, (recoverUnits w valid q).2.foldl note a) := by
  by_cases hnil : q.mapedFiles = []
  · rw [recoverLoop, recoverUnits, if_pos hnil, hnil]
    rfl
  · obtain ⟨front, f, back, h⟩ := exists_endsIn valid (lastThree_ne_nil hnil)
    obtain ⟨hfront, hf⟩ := h.full hl hin
    have hmem : f ∈ q.mapedFiles := mem_of_mem_lastThree (by simp [h.files_eq])
    rw [h.recoverLoop_eq hl hw hin, recoverUnits, if_neg hnil]
    have hscan := h.scanUnits_eq hw hfront (hl.mul_le hmem) hf
    change _ = some (q.truncateDirtyFiles
      (scanUnits w q.mapedFileSize valid (lastThree q.mapedFiles)).1,
      (scanUnits w q.mapedFileSize valid (lastThree q.mapedFiles)).2.foldl note a)
    rw [hscan]

lemma not_inside_iff : ¬ Inside w size valid files ↔
    ¬ w ∣ size ∧ files.head?.any fun f => f.mappedByteBuffer.all valid := by
  rw [Inside, not_or]
  refine and_congr_right fun _ => ?_
  cases files.head? with
  | none => simp
  | some f => simp [AllValid]

end Scan

/-- **The recovery of a consume queue**, by whole files. -/
theorem recover_eq {cq : ConsumeQueue} (h : Laid CQStoreUnitSize cq.mapedFileQueue)
    (hdvd : CQStoreUnitSize ∣ cq.mapedFileQueue.mapedFileSize) :
    recover cq = some cq.recover := by
  rw [recover, recoverLoop_eq_recoverUnits h (by decide) (.inl hdvd), foldl_offset]
  rfl

/-- **The recovery of the state table**, by whole files. -/
theorem recoverStateTableNormal_eq {t : StateTable} (h : Laid TSStoreUnitSize t.tranStateTable) :
    recoverStateTableNormal t =
      (TransactionState.recoverStateTableNormal t.tranStateTable).map fun r =>
        ⟨r.1, r.2.getD t.tranStateTableOffset⟩ := by
  rw [recoverStateTableNormal, TransactionState.recoverStateTableNormal]
  by_cases hnil : t.tranStateTable.mapedFiles = []
  · rw [recoverLoop, hnil]
    rfl
  rw [if_neg hnil, List.isEmpty_eq_false_iff.mpr hnil, ← lastThree]
  by_cases hin : Inside TSStoreUnitSize t.tranStateTable.mapedFileSize Row.isValid
      (lastThree t.tranStateTable.mapedFiles)
  · rw [recoverLoop_eq_recoverUnits h (by decide) hin,
      if_neg fun hnot => not_inside_iff.mpr hnot hin]
    rfl
  · rw [recoverLoop_none h (by decide) hin, if_pos (not_inside_iff.mp hin)]
    rfl

end CloudMQ.IndexRecovery
