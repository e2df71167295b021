import CloudMQ.Strings
import CloudMQ.Runs

/-!
Configuration files: `MixAll.string2File` and `file2String`, and `ConfigManager`, which persists
through the one and loads through the other.

A text is written to a temporary file, the file there is copied to a backup and deleted, and the
temporary file is renamed. A file reads back only if it has as many characters as bytes. The
process may stop between any two steps, and with a file written in part.
-/

namespace CloudMQ.ConfigFiles

open CloudMQ.Buffer CloudMQ.Utf8 CloudMQ.Strings CloudMQ.Runs

/-! ### The files -/

/-- The file, and the ones beside it with `.tmp` and `.bak` to their names; `none` is a file that
does not exist. -/
structure Disk where
  file : Option Bytes
  tmp : Option Bytes
  bak : Option Bytes
  deriving DecidableEq, Repr

/-- `file2String`: an array of one `char` for each byte has to be filled. -/
def file2String : Option Bytes → Option Text
  | none => none
  | some data => if length (utf8Decode data) = data.length then some (utf8Decode data) else none

/-- The steps of `string2File`, in order. -/
inductive Stage
  | writeTmp
  | readPrev
  | writeBak (prevContent : Text)
  | deleteFile
  | renameTmp
  deriving DecidableEq, Repr

/-- `renameTo` answers false where there is no temporary file; nobody looks. -/
def Disk.rename (d : Disk) : Disk :=
  match d.tmp with
  | some data => ⟨some data, none, d.bak⟩
  | none => d

/-- One step of `string2File(str, fileName)`, and the step after it. -/
def Disk.advance (d : Disk) (str : Text) : Stage → Disk × Option Stage
  | .writeTmp => ({ d with tmp := some (utf8Encode str) }, some .readPrev)
  | .readPrev =>
    match file2String d.file with
    | some prevContent => (d, some (.writeBak prevContent))
    | none => (d, some .deleteFile)
  | .writeBak prevContent => ({ d with bak := some (utf8Encode prevContent) }, some .deleteFile)
  | .deleteFile => ({ d with file := none }, some .renameTmp)
  | .renameTmp => (d.rename, none)

/-- A step that got no further than `data`; a file that is opened is empty first. -/
def Disk.partly (d : Disk) (str : Text) (data : Bytes) : Stage → Option Disk
  | .writeTmp => if data <+: utf8Encode str then some { d with tmp := some data } else none
  | .writeBak prevContent =>
    if data <+: utf8Encode prevContent then some { d with bak := some data } else none
  | _ => none

/-! ### What reads back -/

/-- Every character is one byte. -/
def OneByte (str : Text) : Prop := ∀ c ∈ str, c.toNat < 128

instance (str : Text) : Decidable (OneByte str) :=
  List.decidableBAll (fun c : Char => c.toNat < 128) str

lemma length_char (c : Char) :
    (utf16Char c).length ≤ (String.utf8EncodeChar c).length ∧
      ((utf16Char c).length = (String.utf8EncodeChar c).length ↔ c.toNat < 128) := by
  have hval : c.val.toNat = c.toNat := rfl
  simp only [utf16Char, String.utf8EncodeChar, hval]
  split_ifs <;> simp <;> omega

lemma length_cons (c : Char) (str : Text) :
    length (c :: str) = (utf16Char c).length + length str := by
  simp [length, utf16]

/-- A text has as many `char`s as bytes only if each is a byte. -/
lemma length_eq_iff (str : Text) :
    length str ≤ (utf8Encode str).length ∧
      (length str = (utf8Encode str).length ↔ OneByte str) := by
  induction str with
  | nil =>
    have hnil : OneByte [] := fun c h => absurd h List.not_mem_nil
    exact ⟨le_rfl, fun _ => hnil, fun _ => rfl⟩
  | cons c str ih =>
    obtain ⟨hle, hiff⟩ := ih
    obtain ⟨hcle, hciff⟩ := length_char c
    have hbytes : (utf8Encode (c :: str)).length =
        (String.utf8EncodeChar c).length + (utf8Encode str).length := by
      simp [utf8Encode]
    rw [hbytes, length_cons]
    have hsplit : OneByte (c :: str) ↔ c.toNat < 128 ∧ OneByte str := by
      simp [OneByte]
    refine ⟨by omega, ?_⟩
    rw [hsplit, ← hciff, ← hiff]
    omega

lemma file2String_encode (str : Text) :
    file2String (some (utf8Encode str)) = if OneByte str then some str else none := by
  rw [file2String, utf8Decode_encode]
  simp only [(length_eq_iff str).2]

lemma file2String_eq_some {file : Option Bytes} {str : Text} (h : file2String file = some str) :
    ∃ data, file = some data ∧ str = utf8Decode data := by
  cases file with
  | none => cases h
  | some data =>
    rw [file2String] at h
    split_ifs at h
    exact ⟨data, rfl, (Option.some.inj h).symm⟩

/-! ### `ConfigManager` -/

section Manager

-- whether `decode` takes the string; it throws on the others
variable (decodes : Text → Bool)

/-- What a `load` did: the strings it gave to `decode`, whether one was taken, and its answer. -/
structure Load where
  handed : List Text
  decoded : Bool
  success : Bool
  deriving DecidableEq, Repr

/-- A backup that is missing, unreadable or empty is a success. -/
def loadBak (d : Disk) : Load :=
  match file2String d.bak with
  | none => ⟨[], false, true⟩
  | some jsonString =>
    if jsonString = [] then ⟨[], false, true⟩
    else ⟨[jsonString], decodes jsonString, decodes jsonString⟩

/-- `ConfigManager.load`. -/
def load (d : Disk) : Load :=
  match file2String d.file with
  | none => loadBak decodes d
  | some jsonString =>
    if jsonString = [] then loadBak decodes d
    else if decodes jsonString then ⟨[jsonString], true, true⟩
    else
      let bak := loadBak decodes d
      ⟨jsonString :: bak.handed, bak.decoded, bak.success⟩

/-- The files and the call of `persist` that is running. Noted besides are the content of the last
call whose file was renamed, and the content of the last call that began. -/
structure State where
  disk : Disk
  call : Option (Text × Stage)
  completed : Option Text
  current : Option Text
  deriving DecidableEq, Repr

/-- Nothing was ever persisted. -/
def init : State := ⟨⟨none, none, none⟩, none, none, none⟩

inductive Event
  /-- `persist` is called, with what `encode` gave -/
  | persist (jsonString : Text)
  /-- the running call takes its next step -/
  | advance
  /-- the running call has written the file it is at up to here -/
  | partly (data : Bytes)
  /-- the process stops -/
  | crash

/-- One step. `persist` is synchronized. -/
def step (s : State) : Event → Option State
  | .persist jsonString =>
    match s.call with
    | none => some { s with call := some (jsonString, .writeTmp), current := some jsonString }
    | some _ => none
  | .advance =>
    match s.call with
    | none => none
    | some (str, stage) =>
      let (disk, next) := s.disk.advance str stage
      some { s with
        disk
        call := next.map fun stage => (str, stage)
        completed := if next = none then some str else s.completed }
  | .partly data =>
    match s.call with
    | none => none
    | some (str, stage) => (s.disk.partly str data stage).map fun disk => { s with disk }
  | .crash => some { s with call := none }

/-- **What a load should find**: only contents of the last persist or of the one that is under
way, and, once there was a persist, one that is decoded. -/
structure Recovers (s : State) : Prop where
  handed : ∀ str ∈ (load decodes s.disk).handed, s.completed = some str ∨ s.current = some str
  decoded : s.completed ≠ none → (load decodes s.disk).success = true →
    (load decodes s.disk).decoded = true

/-- A content that can be read again: it is not empty, has one byte for each character, and
`decode` takes it. -/
structure Loadable (str : Text) : Prop where
  ne_nil : str ≠ []
  oneByte : OneByte str
  decodes : decodes str = true

/-- The content that is renamed into place can be read again. -/
def RenamesLoadable (s : State) : Event → Prop
  | .advance => ∀ str, s.call = some (str, .renameTmp) → Loadable decodes str
  | _ => True

/-! ### What every step keeps -/

variable {decodes}

/-- What a load can rely on: the file holds the last content, or it is missing and the backup
does. -/
inductive Held (d : Disk) (completed : Option Text) : Prop
  | file (str : Text) (hfile : d.file = some (utf8Encode str)) (hdone : completed = some str)
      (hstr : Loadable decodes str)
  | bak (str : Text) (hfile : d.file = none) (hbak : d.bak = some (utf8Encode str))
      (hdone : completed = some str) (hstr : Loadable decodes str)
  | none (hfile : d.file = none) (hbak : d.bak = none) (hdone : completed = none)

/-- What a call finds at a step. -/
def Ready (d : Disk) (str : Text) : Stage → Prop
  | .writeTmp => True
  | .readPrev => d.tmp = some (utf8Encode str)
  | .writeBak prevContent =>
    d.tmp = some (utf8Encode str) ∧ d.file = some (utf8Encode prevContent)
  | .deleteFile => d.tmp = some (utf8Encode str) ∧ (d.file = none ∨ d.bak = d.file)
  | .renameTmp => d.tmp = some (utf8Encode str) ∧ d.file = none

structure Inv (decodes : Text → Bool) (s : State) : Prop where
  held : @Held decodes s.disk s.completed
  ready : ∀ str stage, s.call = some (str, stage) → Ready s.disk str stage
  current : ∀ str stage, s.call = some (str, stage) → s.current = some str

lemma Loadable.file2String {str : Text} (h : Loadable decodes str) :
    file2String (some (utf8Encode str)) = some str := by
  rw [file2String_encode, if_pos h.oneByte]

lemma inv_init : Inv decodes init :=
  ⟨.none rfl rfl rfl, (fun _ _ h => nomatch h), (fun _ _ h => nomatch h)⟩

/-! ### What a load finds -/

lemma load_of_file {d : Disk} {str : Text} (hfile : d.file = some (utf8Encode str))
    (hstr : Loadable decodes str) : load decodes d = ⟨[str], true, true⟩ := by
  rw [load, hfile, hstr.file2String]
  simp only [if_neg hstr.ne_nil, hstr.decodes, if_true]

lemma loadBak_of_bak {d : Disk} {str : Text} (hbak : d.bak = some (utf8Encode str))
    (hstr : Loadable decodes str) : loadBak decodes d = ⟨[str], true, true⟩ := by
  rw [loadBak, hbak, hstr.file2String]
  simp only [if_neg hstr.ne_nil, hstr.decodes]

lemma loadBak_of_none {d : Disk} (hbak : d.bak = none) :
    loadBak decodes d = ⟨[], false, true⟩ := by
  rw [loadBak, hbak]
  rfl

lemma load_of_no_file {d : Disk} (hfile : d.file = none) : load decodes d = loadBak decodes d := by
  rw [load, hfile]
  rfl

lemma Inv.recovers {s : State} (h : Inv decodes s) : Recovers decodes s := by
  cases h.held with
  | file str hfile hdone hstr =>
    have hload := load_of_file hfile hstr
    refine ⟨fun str' hmem => ?_, fun _ _ => by rw [hload]⟩
    rw [hload, List.mem_singleton] at hmem
    exact .inl (hmem ▸ hdone)
  | bak str hfile hbak hdone hstr =>
    have hload := (load_of_no_file hfile).trans (loadBak_of_bak hbak hstr)
    refine ⟨fun str' hmem => ?_, fun _ _ => by rw [hload]⟩
    rw [hload, List.mem_singleton] at hmem
    exact .inl (hmem ▸ hdone)
  | none hfile hbak hdone =>
    have hload := (load_of_no_file hfile).trans (@loadBak_of_none decodes _ hbak)
    refine ⟨fun str' hmem => ?_, fun hne => absurd hdone hne⟩
    rw [hload] at hmem
    exact absurd hmem List.not_mem_nil

/-! ### Steps -/

section Steps

variable {d d' : Disk} {str : Text} {completed : Option Text} {s s' : State}

/-- The temporary file is not looked at. -/
lemma Held.congr (h : @Held decodes d completed) (hfile : d'.file = d.file)
    (hbak : d'.bak = d.bak) : @Held decodes d' completed := by
  cases h with
  | file str h1 h2 h3 => exact .file str (hfile.trans h1) h2 h3
  | bak str h1 h2 h3 h4 => exact .bak str (hfile.trans h1) (hbak.trans h2) h3 h4
  | none h1 h2 h3 => exact .none (hfile.trans h1) (hbak.trans h2) h3

/-- While the file is there the backup does not matter. -/
lemma Held.of_file {data : Bytes} (h : @Held decodes d completed) (hdata : d.file = some data)
    (hfile : d'.file = d.file) : @Held decodes d' completed := by
  cases h with
  | file str h1 h2 h3 => exact .file str (hfile.trans h1) h2 h3
  | bak str h1 h2 h3 h4 => rw [h1] at hdata; cases hdata
  | none h1 h2 h3 => rw [h1] at hdata; cases hdata

lemma inv_persist (h : Inv decodes s) (hstep : step s (.persist str) = some s') :
    Inv decodes s' := by
  cases hcall : s.call with
  | some c => simp [step, hcall] at hstep
  | none =>
    simp only [step, hcall, Option.some.injEq] at hstep
    subst hstep
    refine ⟨h.held, fun str' stage hc => ?_, fun str' stage hc => ?_⟩ <;>
    · simp only [Option.some.injEq, Prod.mk.injEq] at hc
      obtain ⟨rfl, rfl⟩ := hc
      first | exact trivial | rfl

lemma inv_partly {data : Bytes} (h : Inv decodes s) (hstep : step s (.partly data) = some s') :
    Inv decodes s' := by
  cases hcall : s.call with
  | none => simp [step, hcall] at hstep
  | some c =>
    obtain ⟨str, stage⟩ := c
    have hready := h.ready str stage hcall
    have hcurrent := h.current str stage hcall
    simp only [step, hcall, Option.map_eq_some_iff] at hstep
    obtain ⟨disk, hdisk, rfl⟩ := hstep
    refine ⟨?_, fun str' stage' hc => ?_, fun str' stage' hc => ?_⟩
    · cases stage with
      | writeTmp =>
        simp only [Disk.partly, Option.ite_none_right_eq_some, Option.some.injEq] at hdisk
        obtain ⟨-, rfl⟩ := hdisk
        exact h.held.congr rfl rfl
      | writeBak prevContent =>
        simp only [Disk.partly, Option.ite_none_right_eq_some, Option.some.injEq] at hdisk
        obtain ⟨-, rfl⟩ := hdisk
        exact h.held.of_file hready.2 rfl
      | readPrev | deleteFile | renameTmp => cases hdisk
    · obtain ⟨rfl, rfl⟩ := Prod.mk.inj (Option.some.inj hc)
      cases stage with
      | writeTmp => trivial
      | writeBak prevContent =>
        simp only [Disk.partly, Option.ite_none_right_eq_some, Option.some.injEq] at hdisk
        obtain ⟨-, rfl⟩ := hdisk
        exact hready
      | readPrev | deleteFile | renameTmp => cases hdisk
    · obtain ⟨rfl, rfl⟩ := Prod.mk.inj (Option.some.inj hc)
      exact hcurrent

/-- One step of the running call. -/
lemma ready_advance {stage stage' : Stage} (hheld : @Held decodes d completed)
    (hready : Ready d str stage) (hnext : (d.advance str stage).2 = some stage') :
    @Held decodes (d.advance str stage).1 completed ∧
      Ready (d.advance str stage).1 str stage' := by
  cases stage with
  | writeTmp =>
    simp only [Disk.advance, Option.some.injEq] at hnext ⊢
    subst hnext
    exact ⟨hheld.congr rfl rfl, rfl⟩
  | readPrev =>
    simp only [Disk.advance] at hnext ⊢
    cases hheld with
    | file prev h1 h2 h3 =>
      rw [h1, h3.file2String] at hnext ⊢
      obtain rfl := Option.some.inj hnext
      exact ⟨.file prev h1 h2 h3, hready, h1⟩
    | bak prev h1 h2 h3 h4 =>
      rw [h1] at hnext ⊢
      obtain rfl := Option.some.inj hnext
      exact ⟨.bak prev h1 h2 h3 h4, hready, .inl h1⟩
    | none h1 h2 h3 =>
      rw [h1] at hnext ⊢
      obtain rfl := Option.some.inj hnext
      exact ⟨.none h1 h2 h3, hready, .inl h1⟩
  | writeBak prevContent =>
    simp only [Disk.advance, Option.some.injEq] at hnext ⊢
    subst hnext
    exact ⟨hheld.of_file hready.2 rfl, hready.1, .inr hready.2.symm⟩
  | deleteFile =>
    simp only [Disk.advance, Option.some.injEq] at hnext ⊢
    subst hnext
    refine ⟨?_, hready.1, rfl⟩
    cases hheld with
    | file prev h1 h2 h3 =>
      -- the backup is the file that is deleted
      obtain hnone | hbak := hready.2
      · rw [hnone] at h1; cases h1
      · exact .bak prev rfl (hbak.trans h1) h2 h3
    | bak prev h1 h2 h3 h4 => exact .bak prev rfl h2 h3 h4
    | none h1 h2 h3 => exact .none rfl h2 h3
  | renameTmp => cases hnext

/-- A call that has taken its last step has put its content into place. -/
lemma advance_done {stage : Stage} (hready : Ready d str stage)
    (hnext : (d.advance str stage).2 = none) :
    stage = .renameTmp ∧ (d.advance str stage).1 = ⟨some (utf8Encode str), none, d.bak⟩ := by
  cases stage with
  | renameTmp => exact ⟨rfl, by rw [Disk.advance, Disk.rename, hready.1]⟩
  | readPrev =>
    simp only [Disk.advance] at hnext
    cases hprev : file2String d.file <;> rw [hprev] at hnext <;> cases hnext
  | writeTmp | writeBak | deleteFile => cases hnext

lemma step_advance {stage : Stage} (hcall : s.call = some (str, stage)) :
    step s .advance = some
      { disk := (s.disk.advance str stage).1
        call := (s.disk.advance str stage).2.map fun stage => (str, stage)
        completed := if (s.disk.advance str stage).2 = none then some str else s.completed
        current := s.current } := by
  simp only [step, hcall]

lemma inv_advance (h : Inv decodes s) (hok : RenamesLoadable decodes s .advance)
    (hstep : step s .advance = some s') : Inv decodes s' := by
  cases hcall : s.call with
  | none => simp [step, hcall] at hstep
  | some c =>
    obtain ⟨str, stage⟩ := c
    have hready := h.ready str stage hcall
    rw [step_advance hcall, Option.some.injEq] at hstep
    subst hstep
    cases hnext : (s.disk.advance str stage).2 with
    | none =>
      obtain ⟨rfl, hdisk⟩ := advance_done hready hnext
      refine ⟨.file str (congrArg Disk.file hdisk) rfl (hok str hcall), ?_, ?_⟩ <;>
      · intro str' stage' hc
        cases hc
    | some stage' =>
      obtain ⟨hheld, hready'⟩ := ready_advance h.held hready hnext
      refine ⟨?_, ?_, ?_⟩
      · simpa only [hnext, reduceCtorEq, if_false] using hheld
      all_goals
        intro str' stage'' hc
        simp only [Option.map_some, Option.some.injEq, Prod.mk.injEq] at hc
        obtain ⟨rfl, rfl⟩ := hc
      · exact hready'
      · exact h.current str stage hcall

lemma inv_step {e : Event} (h : Inv decodes s) (hok : RenamesLoadable decodes s e)
    (hstep : step s e = some s') : Inv decodes s' := by
  cases e with
  | persist jsonString => exact inv_persist h hstep
  | advance => exact inv_advance h hok hstep
  | partly data => exact inv_partly h hstep
  | crash =>
    obtain rfl := Option.some.inj hstep
    exact ⟨h.held, (fun _ _ hc => nomatch hc), (fun _ _ hc => nomatch hc)⟩

end Steps

/-! ### When a persist can be recovered from -/

/-- A file that cannot be read again leaves the load to the backup. -/
lemma load_of_not_loadable {d : Disk} {str : Text} (hfile : d.file = some (utf8Encode str))
    (hstr : ¬ Loadable decodes str) :
    (load decodes d).decoded = (loadBak decodes d).decoded ∧
      (load decodes d).success = (loadBak decodes d).success ∧
      ∀ x ∈ (loadBak decodes d).handed, x ∈ (load decodes d).handed := by
  rw [load, hfile, file2String_encode]
  by_cases hbyte : OneByte str
  · simp only [if_pos hbyte]
    by_cases hnil : str = []
    · rw [if_pos hnil]
      exact ⟨rfl, rfl, fun x hx => hx⟩
    · have hdec : ¬ decodes str = true := fun hdec => hstr ⟨hnil, hbyte, hdec⟩
      rw [if_neg hnil, if_neg hdec]
      exact ⟨rfl, rfl, fun x hx => List.mem_cons_of_mem _ hx⟩
  · rw [if_neg hbyte]
    exact ⟨rfl, rfl, fun x hx => hx⟩

/-- A content that is found again after its file was renamed could be read. -/
lemma loadable_of_recovers {s : State} {str : Text} (h : Inv decodes s)
    (hcall : s.call = some (str, .renameTmp))
    (hnext : ∀ s', step s .advance = some s' → Recovers decodes s') : Loadable decodes str := by
  by_contra hstr
  have hready := h.ready str _ hcall
  have hrec := hnext _ (step_advance hcall)
  have hdisk : (s.disk.advance str .renameTmp).1 = ⟨some (utf8Encode str), none, s.disk.bak⟩ := by
    rw [Disk.advance, Disk.rename, hready.1]
  have hcurrent := h.current str _ hcall
  obtain ⟨hdec, hsucc, hhanded⟩ := load_of_not_loadable
    (d := ⟨some (utf8Encode str), none, s.disk.bak⟩) rfl hstr
  obtain ⟨hall, hdecoded⟩ := hrec
  dsimp only at hall hdecoded
  rw [hdisk] at hall hdecoded
  have hsome : (if (s.disk.advance str .renameTmp).2 = none then some str else s.completed) =
      some str := rfl
  rw [hsome] at hall hdecoded
  rw [hdec, hsucc] at hdecoded
  -- what the backup holds is not this content
  have hbak : ∀ prev, s.disk.bak = some (utf8Encode prev) → ¬ Loadable decodes prev := by
    intro prev hprev hload
    have hb := loadBak_of_bak (d := ⟨some (utf8Encode str), none, s.disk.bak⟩) hprev hload
    have hmem := hall prev (hhanded prev (by rw [hb]; exact List.mem_singleton_self prev))
    rw [hcurrent] at hmem
    have heq : str = prev := hmem.elim Option.some.inj Option.some.inj
    exact hstr (heq ▸ hload)
  cases h.held with
  | file prev h1 h2 h3 => rw [hready.2] at h1; cases h1
  | bak prev h1 h2 h3 h4 => exact hbak prev h2 h4
  | none h1 h2 h3 =>
    rw [loadBak_of_none (d := ⟨some (utf8Encode str), none, s.disk.bak⟩) h2] at hdecoded
    exact absurd (hdecoded (by simp) rfl) (by simp)

variable (decodes) in
/-- **Persisting is safe as far as it can be read again.** The files can be recovered from after
every step of a run if and only if every content that is renamed into place is not empty, has one
byte for each character, and is taken by `decode`. -/
theorem recovers_iff (es : List Event) :
    (∀ es', es' <+: es → ∀ t, run step init es' = some t → Recovers decodes t) ↔
      Meets step (RenamesLoadable decodes) init es := by
  refine holds_along_iff (fun s e s' => inv_step) (fun s => Inv.recovers) ?_ inv_init
  intro s e h hnext
  cases e with
  | advance => exact fun str hcall => loadable_of_recovers h hcall hnext
  | persist _ | partly _ | crash => trivial

/-- `{"é":1}`. -/
def accented : Text := ['{', '"', Char.ofNat 0xE9, '"', ':', '1', '}']

/-- The first `persist` of all writes an accent. It is done, and a load finds nothing and says
that all is well. -/
theorem accented_not_recovered :
    ∃ t, run step init [.persist accented, .advance, .advance, .advance, .advance] = some t ∧
      t.call = none ∧ t.completed = some accented ∧
      load (fun _ => true) t.disk = ⟨[], false, true⟩ ∧ ¬ Recovers (fun _ => true) t := by
  refine ⟨⟨⟨some (utf8Encode accented), none, none⟩, none, some accented, some accented⟩,
    by decide, rfl, rfl, by decide, fun h => ?_⟩
  exact absurd (h.decoded (by decide) (by decide)) (by decide)

end Manager

end CloudMQ.ConfigFiles
