import CloudMQ.ConfigFiles
import CloudMQ.Tables

/-!
The configuration of the name server: `KVConfigManager`.

The table is changed under the write lock and persisted under the read lock, so several calls may
persist at once, with one table but step by step among each other: the temporary file one of
them has written is gone when another has renamed it. A load looks at the one file only.
-/

namespace CloudMQ.KVConfig

open CloudMQ.Buffer CloudMQ.Utf8 CloudMQ.Strings CloudMQ.Runs CloudMQ.Tables CloudMQ.ConfigFiles

/-! ### The table -/

/-- `configTable`: the keys and values of each namespace. -/
abbrev ConfigTable := Table Text (Table Text Text)

def putKVConfig (t : ConfigTable) (nameSpace key value : Text) : ConfigTable :=
  t.insert nameSpace (((t.lookup nameSpace).getD ∅).insert key value)

def deleteKVConfig (t : ConfigTable) (nameSpace key : Text) : ConfigTable :=
  match t.lookup nameSpace with
  | none => t
  | some kvTable => t.insert nameSpace (kvTable.erase key)

/-- The entries of a copy are walked through. -/
def deleteKVConfigByValue (t : ConfigTable) (nameSpace value : Text) : ConfigTable :=
  match t.lookup nameSpace with
  | none => t
  | some kvTable =>
    t.insert nameSpace (kvTable.entries.foldl
      (fun kvTable entry => if entry.2 = value then kvTable.erase entry.1 else kvTable) kvTable)

inductive Edit
  | put (nameSpace key value : Text)
  | delete (nameSpace key : Text)
  | deleteByValue (nameSpace value : Text)

def Edit.apply (t : ConfigTable) : Edit → ConfigTable
  | .put nameSpace key value => putKVConfig t nameSpace key value
  | .delete nameSpace key => deleteKVConfig t nameSpace key
  | .deleteByValue nameSpace value => deleteKVConfigByValue t nameSpace value

/-! ### Calls -/

/-- Where a thread is. A persist knows how many edits there had been when it took the table. -/
inductive Phase
  | idle
  | called (edit : Edit)
  | edited
  | persisting (version : ℕ) (content : Text) (stage : Stage)

/-- The files, the table, the threads and who holds the read lock; `down` after a crash. Noted
besides are the number of edits, the tables persists took with their numbers, and the number of
the last persist that was completed. -/
structure State where
  disk : Disk
  configTable : ConfigTable
  phase : ℕ → Phase
  readers : List ℕ
  down : Bool
  version : ℕ
  taken : List (ℕ × ConfigTable)
  completed : Option ℕ

inductive Event
  | call (i : ℕ) (edit : Edit)
  /-- the table is changed under the write lock -/
  | edit (i : ℕ)
  /-- the read lock is taken and the table turned into text -/
  | persist (i : ℕ)
  /-- the next step of `string2File`; the read lock is given back after the last one -/
  | advance (i : ℕ)
  | crash

section Machine

variable (toJson : ConfigTable → Text)

def State.setPhase (s : State) (i : ℕ) (p : Phase) : State :=
  { s with phase := Function.update s.phase i p }

/-- A call and its edit. -/
def stepCall (s : State) : Event → Option State
  | .call i edit =>
    match s.phase i with
    | .idle => some (s.setPhase i (.called edit))
    | _ => none
  | .edit i =>
    match s.phase i with
    | .called edit =>
      if s.readers = [] then
        some ({ s with configTable := edit.apply s.configTable
                       version := s.version + 1 }.setPhase i .edited)
      else none
    | _ => none
  | _ => none

/-- The steps of a persist. -/
def stepPersist (s : State) : Event → Option State
  | .persist i =>
    match s.phase i with
    | .edited =>
      some ({ s with readers := i :: s.readers
                     taken := (s.version, s.configTable) :: s.taken }.setPhase i
        (.persisting s.version (toJson s.configTable) .writeTmp))
    | _ => none
  | .advance i =>
    match s.phase i with
    | .persisting version content stage =>
      match s.disk.advance content stage with
      | (disk, some stage) =>
        some ({ s with disk }.setPhase i (.persisting version content stage))
      | (disk, none) =>
        some ({ s with disk
                       readers := s.readers.filter (· ≠ i)
                       completed := some version }.setPhase i .idle)
    | _ => none
  | _ => none

/-- One step of the process; a stopped one takes none. -/
def step (s : State) (e : Event) : Option State :=
  if s.down then none
  else match e with
    | .crash => some { s with down := true }
    | .call _ _ | .edit _ => stepCall s e
    | .persist _ | .advance _ => stepPersist toJson s e

/-! ### What a load reads -/

/-- `load` gives the text of the table to `fromJson`. -/
def Reads (d : Disk) (t : ConfigTable) : Prop := file2String d.file = some (toJson t)

/-- What is persisted survives: after a crash a load reads a table some persist took, not older
than the last one completed; when all calls have returned it reads the table. -/
structure Survives (s : State) : Prop where
  crashed : s.down = true →
    (∃ v t, (v, t) ∈ s.taken ∧ (∀ w, s.completed = some w → w ≤ v) ∧ Reads toJson s.disk t) ∨
    (s.completed = none ∧ s.disk.file = none)
  returned : s.down = false → (∀ i, s.phase i = .idle) → s.completed ≠ none →
    Reads toJson s.disk s.configTable

/-- A process that starts: without a file, or with the table it loaded from the file. -/
structure Started (s : State) : Prop where
  idle : ∀ i, s.phase i = .idle
  readers : s.readers = []
  up : s.down = false
  loaded : (s.disk.file = none ∧ s.taken = [] ∧ s.completed = none) ∨
    (s.disk.file = some (utf8Encode (toJson s.configTable)) ∧ OneByte (toJson s.configTable) ∧
      s.taken = [(s.version, s.configTable)] ∧ s.completed = some s.version)

/-- A rename finds the temporary file, of a text with one byte for each character; a crash finds
the file, unless there was no persist yet. -/
def InPlace (s : State) : Event → Prop
  | .advance i => ∀ version content, s.phase i = .persisting version content .renameTmp →
    s.disk.tmp ≠ none ∧ OneByte content
  | .crash => s.disk.file ≠ none ∨ s.completed = none
  | _ => True

/-! ### What every step keeps -/

variable {toJson}

/-- Everybody who persists has the table as it is. The file is of a table not older than the last
one completed, and is missing only while somebody is about to rename. -/
structure Inv (toJson : ConfigTable → Text) (s : State) : Prop where
  readers : ∀ i v c st, s.phase i = .persisting v c st → i ∈ s.readers
  current : ∀ i v c st, s.phase i = .persisting v c st →
    v = s.version ∧ c = toJson s.configTable ∧ (s.version, s.configTable) ∈ s.taken
  taken : ∀ v t, (v, t) ∈ s.taken → v ≤ s.version ∧ (v = s.version → t = s.configTable)
  tmp : ∀ i v c st data, s.phase i = .persisting v c st → st ≠ .writeTmp →
    s.disk.tmp = some data → data = utf8Encode c
  file : ∀ data, s.disk.file = some data → ∃ v t, (v, t) ∈ s.taken ∧
    (∀ w, s.completed = some w → w ≤ v) ∧ data = utf8Encode (toJson t) ∧ OneByte (toJson t)
  missing : s.disk.file = none →
    s.completed = none ∨ ∃ i v c, s.phase i = .persisting v c .renameTmp
  completed : ∀ w, s.completed = some w → w ≤ s.version
  last : s.completed = none ∨ s.completed = some s.version ∨
    ∃ i, s.phase i = .edited ∨ ∃ v c st, s.phase i = .persisting v c st
  down : s.down = true → s.disk.file ≠ none ∨ s.completed = none

variable {s s' : State} {i : ℕ}

lemma setPhase_self (p : Phase) : (s.setPhase i p).phase i = p := Function.update_self ..

lemma setPhase_of_ne {j : ℕ} (p : Phase) (h : j ≠ i) : (s.setPhase i p).phase j = s.phase j :=
  Function.update_of_ne h ..

/-- Where a thread is that was somewhere else before. -/
lemma phase_setPhase {j : ℕ} {p q : Phase} (h : (s.setPhase i p).phase j = q) :
    j = i ∧ p = q ∨ j ≠ i ∧ s.phase j = q := by
  by_cases hj : j = i
  · subst hj
    exact .inl ⟨rfl, (setPhase_self p).symm.trans h⟩
  · exact .inr ⟨hj, (setPhase_of_ne p hj).symm.trans h⟩

lemma inv_started (h : Started toJson s) : Inv toJson s := by
  have hidle : ∀ i v c st, s.phase i ≠ .persisting v c st := by
    intro i v c st hp
    rw [h.idle i] at hp
    cases hp
  refine ⟨fun i v c st hp => absurd hp (hidle i v c st),
    fun i v c st hp => absurd hp (hidle i v c st), ?_,
    fun i v c st data hp => absurd hp (hidle i v c st), ?_, ?_, ?_, ?_,
    fun hd => absurd hd (by rw [h.up]; exact Bool.false_ne_true)⟩
  all_goals obtain ⟨h1, h2, h3⟩ | ⟨h1, h2, h3, h4⟩ := h.loaded
  · intro v t hmem
    rw [h2] at hmem
    exact absurd hmem List.not_mem_nil
  · intro v t hmem
    rw [h3, List.mem_singleton, Prod.mk.injEq] at hmem
    exact ⟨hmem.1.le, fun _ => hmem.2⟩
  · intro data hdata
    rw [h1] at hdata
    cases hdata
  · intro data hdata
    rw [h1, Option.some.injEq] at hdata
    refine ⟨s.version, s.configTable, by rw [h3]; exact List.mem_singleton_self _, ?_,
      hdata.symm, h2⟩
    intro w hw
    rw [h4, Option.some.injEq] at hw
    exact hw.symm.le
  · exact fun _ => .inl h3
  · intro hnone
    rw [h1] at hnone
    cases hnone
  · intro w hw
    rw [h3] at hw
    cases hw
  · intro w hw
    rw [h4, Option.some.injEq] at hw
    exact hw.symm.le
  · exact .inl h3
  · exact .inr (.inl h4)

lemma Inv.survives (h : Inv toJson s) : Survives toJson s := by
  constructor
  · intro hdown
    cases hfile : s.disk.file with
    | none => exact .inr ⟨(h.down hdown).resolve_left fun hne => hne hfile, rfl⟩
    | some data =>
      obtain ⟨v, t, hmem, hle, rfl, hbyte⟩ := h.file data hfile
      refine .inl ⟨v, t, hmem, hle, ?_⟩
      rw [Reads, hfile, file2String_encode, if_pos hbyte]
  · intro _ hidle hdone
    have hnobody : ∀ i v c st, s.phase i ≠ .persisting v c st := by
      intro i v c st hp
      rw [hidle i] at hp
      cases hp
    cases hfile : s.disk.file with
    | none =>
      obtain hnone | ⟨i, v, c, hp⟩ := h.missing hfile
      · exact absurd hnone hdone
      · exact absurd hp (hnobody i v c _)
    | some data =>
      obtain ⟨v, t, hmem, hle, rfl, hbyte⟩ := h.file data hfile
      -- the last persist took the last table
      have hlast : s.completed = some s.version := by
        obtain hnone | hsome | ⟨i, hp | ⟨v, c, st, hp⟩⟩ := h.last
        · exact absurd hnone hdone
        · exact hsome
        · rw [hidle i] at hp; cases hp
        · exact absurd hp (hnobody i v c st)
      obtain ⟨hv, ht⟩ := h.taken v t hmem
      have heq : v = s.version := le_antisymm hv (hle _ hlast)
      rw [Reads, hfile, ← ht heq, file2String_encode, if_pos hbyte]

/-! ### Steps -/

lemma inv_call {edit : Edit} (h : Inv toJson s) (hstep : stepCall s (.call i edit) = some s') :
    Inv toJson s' := by
  cases hp : s.phase i with
  | called _ | edited | persisting _ _ _ => simp [stepCall, hp] at hstep
  | idle =>
    simp only [stepCall, hp, Option.some.injEq] at hstep
    subst hstep
    have hsame : ∀ j v c st, (s.setPhase i (.called edit)).phase j = .persisting v c st →
        s.phase j = .persisting v c st := by
      intro j v c st hj
      obtain ⟨-, hq⟩ | ⟨-, hq⟩ := phase_setPhase hj
      · cases hq
      · exact hq
    refine ⟨fun j v c st hj => h.readers j v c st (hsame j v c st hj),
      fun j v c st hj => h.current j v c st (hsame j v c st hj), h.taken,
      fun j v c st data hj => h.tmp j v c st data (hsame j v c st hj), h.file, fun hnone => ?_,
      h.completed, ?_, h.down⟩
    · refine (h.missing hnone).imp_right fun ⟨j, v, c, hj⟩ => ⟨j, v, c, ?_⟩
      rw [setPhase_of_ne _ (by rintro rfl; rw [hp] at hj; cases hj), hj]
    · refine h.last.imp_right (Or.imp_right fun ⟨j, hj⟩ => ⟨j, ?_⟩)
      have hne : j ≠ i := by
        rintro rfl
        rw [hp] at hj
        obtain hj | ⟨v, c, st, hj⟩ := hj <;> cases hj
      rw [setPhase_of_ne _ hne]
      exact hj

/-- The table is changed while nobody persists. -/
lemma inv_edit (h : Inv toJson s) (hstep : stepCall s (.edit i) = some s') : Inv toJson s' := by
  cases hp : s.phase i with
  | idle | edited | persisting _ _ _ => simp [stepCall, hp] at hstep
  | called edit =>
    simp only [stepCall, hp, Option.ite_none_right_eq_some, Option.some.injEq] at hstep
    obtain ⟨hfree, rfl⟩ := hstep
    have hnobody : ∀ j v c st, s.phase j ≠ .persisting v c st := by
      intro j v c st hj
      have hmem := h.readers j v c st hj
      rw [hfree] at hmem
      exact absurd hmem List.not_mem_nil
    have hnone : ∀ j v c st, (State.setPhase { s with configTable := edit.apply s.configTable
                                                      version := s.version + 1 }
        i .edited).phase j ≠ .persisting v c st := by
      intro j v c st hj
      obtain ⟨-, hq⟩ | ⟨-, hq⟩ := phase_setPhase hj
      · cases hq
      · exact hnobody j v c st hq
    refine ⟨fun j v c st hj => absurd hj (hnone j v c st),
      fun j v c st hj => absurd hj (hnone j v c st), fun v t hmem => ?_,
      fun j v c st data hj => absurd hj (hnone j v c st), h.file, fun hgone => ?_,
      fun w hw => ?_, .inr (.inr ⟨i, .inl (setPhase_self _)⟩), h.down⟩
    · have hle := (h.taken v t hmem).1
      exact ⟨Nat.le_succ_of_le hle, fun heq => absurd heq (Nat.ne_of_lt (Nat.lt_succ_of_le hle))⟩
    · exact (h.missing hgone).imp_right fun ⟨j, v, c, hj⟩ => absurd hj (hnobody j v c _)
    · exact Nat.le_succ_of_le (h.completed w hw)

lemma inv_persist (h : Inv toJson s) (hstep : stepPersist toJson s (.persist i) = some s') :
    Inv toJson s' := by
  cases hp : s.phase i with
  | idle | called _ | persisting _ _ _ => simp [stepPersist, hp] at hstep
  | edited =>
    simp only [stepPersist, hp, Option.some.injEq] at hstep
    subst hstep
    have hne : ∀ j v c st, s.phase j = .persisting v c st → j ≠ i := by
      rintro j v c st hj rfl
      rw [hp] at hj
      cases hj
    refine ⟨fun j v c st hj => ?_, fun j v c st hj => ?_, fun v t hmem => ?_,
      fun j v c st data hj hst => ?_, fun data hdata => ?_, fun hgone => ?_, h.completed,
      .inr (.inr ⟨i, .inr ⟨_, _, _, setPhase_self _⟩⟩), h.down⟩
    · obtain ⟨rfl, -⟩ | ⟨-, hq⟩ := phase_setPhase hj
      · exact List.mem_cons_self
      · exact List.mem_cons_of_mem _ (h.readers j v c st hq)
    · obtain ⟨rfl, hq⟩ | ⟨-, hq⟩ := phase_setPhase hj
      · cases hq
        exact ⟨rfl, rfl, List.mem_cons_self⟩
      · obtain ⟨h1, h2, h3⟩ := h.current j v c st hq
        exact ⟨h1, h2, List.mem_cons_of_mem _ h3⟩
    · obtain heq | hmem := List.mem_cons.mp hmem
      · cases heq
        exact ⟨le_rfl, fun _ => rfl⟩
      · exact h.taken v t hmem
    · obtain ⟨-, hq⟩ | ⟨-, hq⟩ := phase_setPhase hj
      · cases hq
        exact absurd rfl hst
      · exact h.tmp j v c st data hq hst
    · obtain ⟨v, t, hmem, hrest⟩ := h.file data hdata
      exact ⟨v, t, List.mem_cons_of_mem _ hmem, hrest⟩
    · refine (h.missing hgone).imp_right fun ⟨j, v, c, hj⟩ => ⟨j, v, c, ?_⟩
      rw [setPhase_of_ne _ (hne j v c _ hj)]
      exact hj

/-- A step of a persist before the rename. The file is untouched or deleted. -/
lemma inv_advance {v : ℕ} {c : Text} {st st' : Stage} {disk : Disk} (h : Inv toJson s)
    (hup : s.down = false) (hp : s.phase i = .persisting v c st)
    (hadv : s.disk.advance c st = (disk, some st')) :
    Inv toJson (State.setPhase { s with disk } i (.persisting v c st')) := by
  obtain ⟨hv, hc, hmem⟩ := h.current i v c st hp
  -- the temporary file is as it was, or it is of the table
  have htmp : disk.tmp = s.disk.tmp ∧ st ≠ .writeTmp ∨ disk.tmp = some (utf8Encode c) := by
    cases st with
    | writeTmp => cases hadv; exact .inr rfl
    | readPrev =>
      simp only [Disk.advance] at hadv
      cases hprev : file2String s.disk.file <;> rw [hprev] at hadv <;> cases hadv <;>
        exact .inl ⟨rfl, by simp⟩
    | writeBak prevContent => cases hadv; exact .inl ⟨rfl, by simp⟩
    | deleteFile => cases hadv; exact .inl ⟨rfl, by simp⟩
    | renameTmp => cases hadv
  have hfile : disk.file = s.disk.file ∧ st' ≠ .renameTmp ∧ st ≠ .renameTmp ∨
      disk.file = none ∧ st' = .renameTmp := by
    cases st with
    | writeTmp => cases hadv; exact .inl ⟨rfl, by simp⟩
    | readPrev =>
      simp only [Disk.advance] at hadv
      cases hprev : file2String s.disk.file <;> rw [hprev] at hadv <;> cases hadv <;>
        exact .inl ⟨rfl, by simp⟩
    | writeBak prevContent => cases hadv; exact .inl ⟨rfl, by simp⟩
    | deleteFile => cases hadv; exact .inr ⟨rfl, rfl⟩
    | renameTmp => cases hadv
  refine ⟨fun j v' c' st'' hj => ?_, fun j v' c' st'' hj => ?_, h.taken,
    fun j v' c' st'' data hj hst hdata => ?_, fun data hdata => ?_, fun hgone => ?_, h.completed,
    .inr (.inr ⟨i, .inr ⟨_, _, _, setPhase_self _⟩⟩),
    fun hd => absurd (hup.symm.trans hd) Bool.false_ne_true⟩
  · obtain ⟨rfl, -⟩ | ⟨-, hq⟩ := phase_setPhase hj
    · exact h.readers j v c st hp
    · exact h.readers j v' c' st'' hq
  · obtain ⟨rfl, hq⟩ | ⟨-, hq⟩ := phase_setPhase hj
    · cases hq
      exact ⟨hv, hc, hmem⟩
    · exact h.current j v' c' st'' hq
  · -- everybody writes the same text
    have hsame : c' = c := by
      obtain ⟨-, hq⟩ | ⟨-, hq⟩ := phase_setPhase hj
      · cases hq; rfl
      · exact (h.current j v' c' st'' hq).2.1.trans hc.symm
    change disk.tmp = some data at hdata
    obtain ⟨hsame', hst'⟩ | hnew := htmp
    · obtain ⟨rfl, -⟩ | ⟨-, hq⟩ := phase_setPhase hj
      · rw [hsame]
        exact h.tmp j v c st data hp hst' (hsame' ▸ hdata)
      · exact h.tmp j v' c' st'' data hq hst (hsame' ▸ hdata)
    · rw [hnew, Option.some.injEq] at hdata
      rw [hsame, hdata]
  · change disk.file = some data at hdata
    obtain ⟨hsame, -⟩ | ⟨hnone, -⟩ := hfile
    · exact h.file data (hsame ▸ hdata)
    · rw [hnone] at hdata; cases hdata
  · change disk.file = none at hgone
    obtain ⟨hsame, hst', hst⟩ | ⟨-, rfl⟩ := hfile
    · refine (h.missing (hsame ▸ hgone)).imp_right ?_
      rintro ⟨j, v', c', hj⟩
      refine ⟨j, v', c', ?_⟩
      have hne : j ≠ i := by
        rintro rfl
        rw [hp] at hj
        cases hj
        exact hst rfl
      rw [setPhase_of_ne _ hne]
      exact hj
    · exact .inr ⟨i, v, c, setPhase_self _⟩

/-- The rename, with a temporary file to rename. -/
lemma inv_rename {v : ℕ} {c : Text} (h : Inv toJson s) (hup : s.down = false)
    (hp : s.phase i = .persisting v c .renameTmp) (htmp : s.disk.tmp ≠ none) (hbyte : OneByte c) :
    Inv toJson (State.setPhase { s with disk := s.disk.rename
                                        readers := s.readers.filter (· ≠ i)
                                        completed := some v } i .idle) := by
  obtain ⟨hv, hc, hmem⟩ := h.current i v c _ hp
  obtain ⟨data, hdata⟩ := Option.ne_none_iff_exists'.mp htmp
  have hown := h.tmp i v c _ data hp (by simp) hdata
  have hren : s.disk.rename = ⟨some (utf8Encode c), none, s.disk.bak⟩ := by
    rw [Disk.rename, hdata, hown]
  rw [hren]
  have hother : ∀ j v' c' st, (State.setPhase { s with
      disk := ⟨some (utf8Encode c), none, s.disk.bak⟩, readers := s.readers.filter (· ≠ i),
      completed := some v } i .idle).phase j = .persisting v' c' st →
      j ≠ i ∧ s.phase j = .persisting v' c' st := by
    intro j v' c' st hj
    obtain ⟨-, hq⟩ | hq := phase_setPhase hj
    · cases hq
    · exact hq
  refine ⟨fun j v' c' st hj => ?_, fun j v' c' st hj => ?_, h.taken,
    fun j v' c' st data' hj hst hdata' => ?_, fun data' hdata' => ?_, fun hgone => ?_,
    fun w hw => ?_, .inr (.inl (congrArg some hv)),
    fun hd => absurd (hup.symm.trans hd) Bool.false_ne_true⟩
  · obtain ⟨hne, hq⟩ := hother j v' c' st hj
    exact List.mem_filter.mpr ⟨h.readers j v' c' st hq, by simpa using hne⟩
  · exact h.current j v' c' st (hother j v' c' st hj).2
  · cases hdata'
  · obtain rfl := Option.some.inj hdata'
    refine ⟨v, s.configTable, hv ▸ hmem, fun w hw => ?_, by rw [hc], hc ▸ hbyte⟩
    exact (Option.some.inj hw).symm.le
  · cases hgone
  · rw [← Option.some.inj hw]
    exact hv.le

lemma inv_step {e : Event} (h : Inv toJson s) (hok : InPlace s e)
    (hstep : step toJson s e = some s') : Inv toJson s' := by
  cases hdown : s.down with
  | true => simp [step, hdown] at hstep
  | false =>
    simp only [step, hdown, Bool.false_eq_true, if_false] at hstep
    cases e with
    | call i edit => exact inv_call h hstep
    | edit i => exact inv_edit h hstep
    | persist i => exact inv_persist h hstep
    | crash =>
      obtain rfl := Option.some.inj hstep
      exact ⟨h.readers, h.current, h.taken, h.tmp, h.file, h.missing, h.completed, h.last,
        fun _ => hok⟩
    | advance i =>
      cases hp : s.phase i with
      | idle | called _ | edited => simp [stepPersist, hp] at hstep
      | persisting v c st =>
        cases hadv : s.disk.advance c st with
        | mk disk next =>
          simp only [stepPersist, hp, hadv] at hstep
          cases next with
          | some st' =>
            obtain rfl := Option.some.inj hstep
            exact inv_advance h hdown hp hadv
          | none =>
            obtain rfl := Option.some.inj hstep
            have hst : st = .renameTmp := by
              cases st with
              | renameTmp => rfl
              | readPrev =>
                simp only [Disk.advance] at hadv
                cases hprev : file2String s.disk.file <;> rw [hprev] at hadv <;> cases hadv
              | writeTmp | writeBak _ | deleteFile => cases hadv
            subst hst
            obtain ⟨htmp, hbyte⟩ := hok v c hp
            cases hadv
            exact inv_rename h hdown hp htmp hbyte

variable (toJson) in
/-- **The configuration survives** every run in which each rename finds the temporary file, of a
text of one-byte characters, and the crash finds the file. -/
theorem configuration_survives {s t : State} (hs : Started toJson s) {es : List Event}
    (hok : Meets (step toJson) InPlace s es) (hr : run (step toJson) s es = some t) :
    Survives toJson t :=
  (run_invariant (fun _ _ _ => inv_step) (inv_started hs) hok hr).survives

end Machine

/-! ### Two calls -/

def quoted (s : Text) : Text := '"' :: s ++ ['"']

/-- The text of an object with the given fields. -/
def object (fields : List Text) : Text := '{' :: List.intercalate [','] fields ++ ['}']

/-- The serialized table, of strings that need no escapes. -/
def plainJson (t : ConfigTable) : Text :=
  object [quoted "configTable".toList ++ ':' :: object (t.entries.map fun nameSpace =>
    quoted nameSpace.1 ++ ':' :: object (nameSpace.2.entries.map fun entry =>
      quoted entry.1 ++ ':' :: quoted entry.2))]

def fresh : State := ⟨⟨none, none, none⟩, ∅, fun _ => .idle, [], false, 0, [], none⟩

lemma fresh_started : Started plainJson fresh :=
  ⟨fun _ => rfl, rfl, rfl, .inl ⟨rfl, rfl, rfl⟩⟩

def putOf (i : ℕ) (key : Text) : List Event :=
  [.call i (.put ['n'] key ['v']), .edit i]

/-- Both threads have put a value and persist it at once. -/
def overlapping : List Event :=
  putOf 0 ['a'] ++ putOf 1 ['b'] ++ [.persist 0, .persist 1] ++
    [.advance 0, .advance 1] ++ [.advance 0, .advance 0, .advance 0] ++
    [.advance 1, .advance 1, .advance 1, .advance 1]

/-- Both calls have returned, and there is no file. -/
theorem overlapping_lost : ∃ t, run (step plainJson) fresh overlapping = some t ∧
    t.down = false ∧ (∀ i, t.phase i = .idle) ∧ t.disk.file = none ∧ ¬ Survives plainJson t := by
  have hidle : ∀ t, run (step plainJson) fresh overlapping = some t → ∀ i, t.phase i = .idle := by
    rintro t ht i
    obtain rfl := Option.some.inj ht
    match i with
    | 0 => rfl
    | 1 => rfl
    | i + 2 => rfl
  refine ⟨_, rfl, rfl, hidle _ rfl, rfl, fun h => ?_⟩
  have hreads := h.returned rfl (hidle _ rfl) (fun hnone => nomatch hnone)
  cases hreads

/-- A persist, and the process stops while the next call has changed the table. -/
def inTurn : List Event :=
  putOf 0 ['a'] ++ [.persist 0, .advance 0, .advance 0, .advance 0, .advance 0] ++
    putOf 1 ['b'] ++ [.crash]

/-- `InPlace`, decided. -/
def inPlace (s : State) : Event → Bool
  | .advance i =>
    match s.phase i with
    | .persisting _ content .renameTmp => s.disk.tmp.isSome && decide (OneByte content)
    | _ => true
  | .crash => s.disk.file.isSome || s.completed.isNone
  | _ => true

lemma inPlace_of_check (s : State) (e : Event) (h : inPlace s e = true) : InPlace s e := by
  cases e with
  | advance i =>
    intro v c hp
    simp only [inPlace, hp, Bool.and_eq_true, decide_eq_true_eq] at h
    exact ⟨Option.isSome_iff_ne_none.mp h.1, h.2⟩
  | crash =>
    simp only [inPlace, Bool.or_eq_true] at h
    exact h.imp Option.isSome_iff_ne_none.mp Option.isNone_iff_eq_none.mp
  | call _ _ | edit _ | persist _ => trivial

theorem inTurn_survives : ∃ t, run (step plainJson) fresh inTurn = some t ∧ t.down = true ∧
    t.completed = some 1 ∧ t.version = 2 ∧ Survives plainJson t := by
  have hchecks : checks (step plainJson) inPlace fresh inTurn = true := by decide
  exact ⟨_, rfl, rfl, rfl, rfl,
    configuration_survives plainJson fresh_started (meets_of_checks inPlace_of_check hchecks) rfl⟩

end CloudMQ.KVConfig
