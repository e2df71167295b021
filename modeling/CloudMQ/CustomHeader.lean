import Mathlib.Data.List.FinRange
import CloudMQ.SendBackPaths

/-!
Custom headers: the loops over the declared fields of a header class in `RemotingCommand`, which
write the fields of a header into the `extFields` of a command and read them back.

A class is given by its declared fields, what its constructor leaves in them, and its own
`checkFields`. Its fields are of the types that the headers of this repository use.
-/

namespace CloudMQ.CustomHeader

open CloudMQ.Utf8 CloudMQ.Strings CloudMQ.Message
open CloudMQ.SendMessageBack (valueOfLong)
open CloudMQ.SendBackPaths (parseBoolean)

/-! ### Values -/

def unsignedLong (negative : Bool) (s : Text) : Option Int64 :=
  if s = [] then none
  else (digits s).bind fun n =>
    if negative then (if n ≤ 2 ^ 63 then some (Int64.ofInt (-n)) else none)
    else (if n < 2 ^ 63 then some (Int64.ofNat n) else none)

/-- `Long.parseLong`; `none` is a `NumberFormatException`. -/
def parseLong : Text → Option Int64
  | '-' :: s => unsignedLong true s
  | '+' :: s => unsignedLong false s
  | s => unsignedLong false s

lemma parseLong_valueOfLong_nonneg {n : Int64} (h : 0 ≤ n.toInt) :
    parseLong (valueOfLong n) = some n := by
  have hne : Nat.toDigits 10 n.toInt.natAbs ≠ [] := Nat.toDigits_ne_nil
  have hsign : parseLong (Nat.toDigits 10 n.toInt.natAbs) =
      unsignedLong false (Nat.toDigits 10 n.toInt.natAbs) := by
    unfold parseLong
    split
    · next s hs => exact absurd hs (toDigits_ne_cons (by decide) s)
    · next s hs => exact absurd hs (toDigits_ne_cons (by decide) s)
    · rfl
  have hlt : n.toInt.natAbs < 2 ^ 63 := by
    have := n.toInt_lt
    omega
  rw [valueOfLong, if_neg (by omega), hsign, unsignedLong, if_neg hne, digits_toDigits,
    Option.bind_some, if_neg (by simp), if_pos hlt]
  congr 1
  have hn : (n.toInt.natAbs : ℤ) = n.toInt := by omega
  rw [← Int64.ofInt_eq_ofNat, hn, Int64.ofInt_toInt]

lemma parseLong_valueOfLong_neg {n : Int64} (h : n.toInt < 0) :
    parseLong (valueOfLong n) = some n := by
  have hne : Nat.toDigits 10 n.toInt.natAbs ≠ [] := Nat.toDigits_ne_nil
  have hle : n.toInt.natAbs ≤ 2 ^ 63 := by
    have := n.le_toInt
    omega
  have hn : (-(n.toInt.natAbs : ℤ)) = n.toInt := by omega
  rw [valueOfLong, if_pos h]
  change unsignedLong true (Nat.toDigits 10 n.toInt.natAbs) = some n
  rw [unsignedLong, if_neg hne, digits_toDigits, Option.bind_some, if_pos rfl, if_pos hle, hn,
    Int64.ofInt_toInt]

lemma parseLong_valueOfLong (n : Int64) : parseLong (valueOfLong n) = some n := by
  rcases lt_or_ge n.toInt 0 with h | h
  · exact parseLong_valueOfLong_neg h
  · exact parseLong_valueOfLong_nonneg h

/-- `String.valueOf(boolean)`. -/
def valueOfBoolean (b : Bool) : Text := if b then "true".toList else "false".toList

lemma parseBoolean_valueOfBoolean (b : Bool) : parseBoolean (valueOfBoolean b) = b := by
  cases b <;> decide

/-- The type of a field. -/
inductive FieldType
  | string
  | integer
  | int
  | boxedLong
  | long
  | boxedBoolean
  | boolean
deriving DecidableEq

namespace FieldType

/-- The values of a type; `none` is `null`. -/
def Value : FieldType → Type
  | string => Option Text
  | integer => Option Int32
  | int => Int32
  | boxedLong => Option Int64
  | long => Int64
  | boxedBoolean => Option Bool
  | boolean => Bool

/-- `value.toString()`, of a value that is not `null`. -/
def text : (t : FieldType) → t.Value → Option Text
  | string, v => v
  | integer, v => Option.map valueOf v
  | int, v => some (valueOf v)
  | boxedLong, v => Option.map valueOfLong v
  | long, v => some (valueOfLong v)
  | boxedBoolean, v => Option.map valueOfBoolean v
  | boolean, v => some (valueOfBoolean v)

/-- The value that a text is parsed to; `none` is a `NumberFormatException`. -/
def parse : (t : FieldType) → Text → Option t.Value
  | string, s => some (some s)
  | integer, s => (parseInt s).map some
  | int, s => parseInt s
  | boxedLong, s => (parseLong s).map some
  | long, s => parseLong s
  | boxedBoolean, s => some (some (parseBoolean s))
  | boolean, s => some (parseBoolean s)

/-- Every value reads back from what is written of it. -/
lemma parse_text {t : FieldType} {v : t.Value} {s : Text} (h : t.text v = some s) :
    t.parse s = some v := by
  cases t with
  | string =>
    simp only [text] at h
    subst h
    rfl
  | integer =>
    obtain ⟨n, rfl, rfl⟩ := Option.map_eq_some_iff.mp h
    simp only [parse, parseInt_valueOf_self]
    rfl
  | int =>
    obtain rfl := Option.some.inj h
    exact parseInt_valueOf_self _
  | boxedLong =>
    obtain ⟨n, rfl, rfl⟩ := Option.map_eq_some_iff.mp h
    simp only [parse, parseLong_valueOfLong]
    rfl
  | long =>
    obtain rfl := Option.some.inj h
    exact parseLong_valueOfLong _
  | boxedBoolean =>
    obtain ⟨b, rfl, rfl⟩ := Option.map_eq_some_iff.mp h
    simp only [parse, parseBoolean_valueOfBoolean]
  | boolean =>
    obtain rfl := Option.some.inj h
    exact congrArg some (parseBoolean_valueOfBoolean v)

end FieldType

/-! ### Header classes -/

/-- A declared field: a static one, or one of the instances, with its `CFNotNull` annotation. -/
inductive Field
  | ofClass (name : Text)
  | ofInstance (name : Text) (type : FieldType) (cfNotNull : Bool)
deriving DecidableEq

namespace Field

def name : Field → Text
  | ofClass name => name
  | ofInstance name _ _ => name

/-- What an instance holds in a field. -/
def Slot : Field → Type
  | ofClass _ => Unit
  | ofInstance _ type _ => type.Value

/-- `name.startsWith("this")`. -/
def startsWithThis (f : Field) : Bool := "this".toList.isPrefixOf f.name

end Field

/-- An instance of a class, by what it holds in the declared fields. -/
abbrev Instance (fields : List Field) : Type := ∀ i : Fin fields.length, (fields.get i).Slot

inductive Thrown
  | remotingCommandException (message : Text)
  | numberFormatException
  | nullPointerException
deriving DecidableEq

/-- A class that implements `CommandCustomHeader`. -/
structure HeaderClass where
  fields : List Field
  distinct : (fields.map Field.name).Nodup
  /-- `none` if there is no accessible constructor, or the class is abstract -/
  newInstance : Option (Instance fields)
  checkFields : Instance fields → Except Thrown Unit

/-- The fields of a command that hold its header. -/
structure RemotingCommand (C : HeaderClass) where
  customHeader : Option (Instance C.fields)
  extFields : Option Props

variable {C : HeaderClass}

def createRequestCommand (customHeader : Instance C.fields) : RemotingCommand C :=
  ⟨some customHeader, none⟩

/-! ### Writing -/

/-- One round of the loop of `makeCustomHeaderToNet`. -/
def Field.write : (f : Field) → f.Slot → Props → Props
  | .ofClass _, _, extFields => extFields
  | .ofInstance name type cfNotNull, value, extFields =>
    if (Field.ofInstance name type cfNotNull).startsWithThis then extFields
    else
      match type.text value with
      | some s => extFields.put name s
      | none => extFields

def makeCustomHeaderToNet (cmd : RemotingCommand C) : RemotingCommand C :=
  match cmd.customHeader with
  | none => cmd
  | some header =>
    { cmd with
      extFields := some ((List.finRange C.fields.length).foldl
        (fun extFields i => (C.fields.get i).write (header i) extFields)
        (cmd.extFields.getD Props.empty)) }

/-! ### Reading -/

/-- What the `try` block of `decodeCommandCustomHeader` finds for a field, if anything. -/
def Field.read : (f : Field) → Props → Except Thrown (Option f.Slot)
  | .ofClass _, _ => .ok none
  | .ofInstance name type cfNotNull, extFields =>
    if (Field.ofInstance name type cfNotNull).startsWithThis then .ok none
    else
      match extFields.get name with
      | none =>
        if cfNotNull then
          .error (.remotingCommandException
            ("the custom field <".toList ++ name ++ "> is null".toList))
        else .ok none
      | some value =>
        match type.parse value with
        | some valueParsed => .ok (some valueParsed)
        | none => .error .numberFormatException

/-- One round of the loop, with its `catch (Throwable e)`. -/
def setField {fields : List Field} (extFields : Props) (header : Instance fields)
    (i : Fin fields.length) : Instance fields :=
  match (fields.get i).read extFields with
  | .ok (some valueParsed) => Function.update header i valueParsed
  | .ok none => header
  | .error _ => header

/-- `none` is `null`. -/
def decodeCommandCustomHeader (cmd : RemotingCommand C) :
    Except Thrown (Option (Instance C.fields)) :=
  match cmd.extFields with
  | none => .ok none
  | some extFields =>
    match C.newInstance with
    | none => .ok none
    | some objectHeader =>
      let objectHeader := (List.finRange C.fields.length).foldl (setField extFields) objectHeader
      (C.checkFields objectHeader).map fun _ => some objectHeader

/-! ### What is written, and what is read -/

/-- Is not written: a static field, one whose name starts with `this`, and `null`. -/
def Field.Omitted : (f : Field) → f.Slot → Prop
  | .ofClass _, _ => True
  | .ofInstance name type cfNotNull, value =>
    (Field.ofInstance name type cfNotNull).startsWithThis = true ∨ type.text value = none

/-- The value that the map gives a field, if it is present and can be parsed. -/
def Field.given : (f : Field) → Props → Option f.Slot
  | .ofClass _, _ => none
  | .ofInstance name type _, extFields => (extFields.get name).bind type.parse

/-- Is required and missing, or present and cannot be parsed. -/
def Field.Faulty : Field → Props → Prop
  | .ofClass _, _ => False
  | .ofInstance name type cfNotNull, extFields =>
    (cfNotNull = true ∧ extFields.get name = none) ∨
      ∃ s, extFields.get name = some s ∧ type.parse s = none

/-- What the loop leaves in a field. -/
def Field.after (f : Field) (extFields : Props) (value : f.Slot) : f.Slot :=
  if f.startsWithThis then value else (f.given extFields).getD value

lemma Field.read_given (f : Field) (extFields : Props) (value : f.Slot) :
    (match f.read extFields with
      | .ok (some valueParsed) => valueParsed
      | .ok none => value
      | .error _ => value) = f.after extFields value := by
  cases f with
  | ofClass name => simp [read, after, given]
  | ofInstance name type cfNotNull =>
    simp only [read, after, given]
    cases (Field.ofInstance name type cfNotNull).startsWithThis with
    | true => rfl
    | false =>
      cases extFields.get name with
      | none => cases cfNotNull <;> rfl
      | some s =>
        cases hparse : type.parse s with
        | none =>
          simp only [hparse, Bool.false_eq_true, if_false]
          exact (congrArg (fun found => Option.getD found value) hparse).symm
        | some v =>
          simp only [hparse, Bool.false_eq_true, if_false]
          exact (congrArg (fun found => Option.getD found value) hparse).symm

lemma setField_self {fields : List Field} (extFields : Props) (header : Instance fields)
    (i : Fin fields.length) :
    setField extFields header i i = (fields.get i).after extFields (header i) := by
  rw [← Field.read_given, setField]
  cases (fields.get i).read extFields with
  | error e => rfl
  | ok found =>
    cases found with
    | none => rfl
    | some v => exact Function.update_self _ _ _

lemma setField_of_ne {fields : List Field} (extFields : Props) (header : Instance fields)
    {i j : Fin fields.length} (h : j ≠ i) : setField extFields header i j = header j := by
  rw [setField]
  cases (fields.get i).read extFields with
  | error e => rfl
  | ok found =>
    cases found with
    | none => rfl
    | some v => exact Function.update_of_ne h _ _

/-- The loop goes through the fields one by one. -/
lemma foldl_setField {fields : List Field} (extFields : Props) (header : Instance fields)
    {l : List (Fin fields.length)} (hl : l.Nodup) (i : Fin fields.length) :
    l.foldl (setField extFields) header i =
      if i ∈ l then (fields.get i).after extFields (header i) else header i := by
  induction l generalizing header with
  | nil => rfl
  | cons j l ih =>
    obtain ⟨hj, hl⟩ := List.nodup_cons.mp hl
    rw [List.foldl_cons, ih _ hl]
    by_cases hij : i = j
    · subst hij
      rw [if_neg hj, if_pos List.mem_cons_self, setField_self]
    · rw [setField_of_ne _ _ hij]
      simp [hij]

/-- **Reading.** The fields that the map gives a value for get it, and then the class checks the
header; whatever else goes wrong is caught in the loop. -/
theorem decode_eq {fresh : Instance C.fields} (hfresh : C.newInstance = some fresh)
    (header : Option (Instance C.fields)) (extFields : Props) :
    decodeCommandCustomHeader (C := C) ⟨header, some extFields⟩ =
      (C.checkFields fun i => (C.fields.get i).after extFields (fresh i)).map
        fun _ => some fun i => (C.fields.get i).after extFields (fresh i) := by
  have hloop : (List.finRange C.fields.length).foldl (setField extFields) fresh =
      fun i => (C.fields.get i).after extFields (fresh i) := by
    funext i
    rw [foldl_setField _ _ (List.nodup_finRange _), if_pos (List.mem_finRange i)]
  simp only [decodeCommandCustomHeader, hfresh, hloop]

lemma decode_of_newInstance_none (hnone : C.newInstance = none) (cmd : RemotingCommand C) :
    decodeCommandCustomHeader cmd = .ok none := by
  rw [decodeCommandCustomHeader]
  split
  · rfl
  · rw [hnone]

/-! ### Writing -/

/-- The entry that a field is written to. -/
def Field.entry : (f : Field) → f.Slot → Option Text
  | .ofClass _, _ => none
  | .ofInstance name type cfNotNull, value =>
    if (Field.ofInstance name type cfNotNull).startsWithThis then none else type.text value

lemma Field.write_eq (f : Field) (value : f.Slot) (extFields : Props) :
    f.write value extFields =
      match f.entry value with
      | some s => extFields.put f.name s
      | none => extFields := by
  cases f with
  | ofClass name => rfl
  | ofInstance name type cfNotNull =>
    simp only [write, entry]
    cases (Field.ofInstance name type cfNotNull).startsWithThis <;> rfl

lemma Field.get_write_self {f : Field} {value : f.Slot} {extFields : Props}
    (h : extFields.get f.name = none) : (f.write value extFields).get f.name = f.entry value := by
  rw [write_eq]
  cases f.entry value with
  | none => exact h
  | some s => exact Props.get_put_self _ _ _

lemma Field.get_write_of_ne {f : Field} {value : f.Slot} {extFields : Props} {name : Text}
    (h : f.name ≠ name) : (f.write value extFields).get name = extFields.get name := by
  rw [write_eq]
  cases f.entry value with
  | none => rfl
  | some s => exact Props.get_put_of_ne _ h

/-- The entry of a field after the loop; no two fields have one name. -/
lemma get_foldl_write {fields : List Field} (hdistinct : (fields.map Field.name).Nodup)
    (header : Instance fields) {l : List (Fin fields.length)} (hl : l.Nodup) (extFields : Props)
    (i : Fin fields.length) (hnone : extFields.get (fields.get i).name = none) :
    (l.foldl (fun extFields j => (fields.get j).write (header j) extFields) extFields).get
        (fields.get i).name =
      if i ∈ l then (fields.get i).entry (header i) else none := by
  induction l using List.reverseRecOn with
  | nil => exact hnone
  | append_singleton l j ih =>
    obtain ⟨hl', -, hdisjoint⟩ := List.nodup_append.mp hl
    rw [List.foldl_append, List.foldl_cons, List.foldl_nil]
    by_cases hij : j = i
    · subst hij
      have hj : j ∉ l := fun hmem => hdisjoint j hmem j (List.mem_singleton_self j) rfl
      rw [Field.get_write_self ((ih hl').trans (if_neg hj)), if_pos (by simp)]
    · have hname : (fields.get j).name ≠ (fields.get i).name := fun heq => by
        have hget := List.nodup_iff_injective_get.mp hdistinct
        refine hij (Fin.ext ?_)
        have := @hget ⟨j, by simp⟩ ⟨i, by simp⟩ (by simpa using heq)
        simpa using this
      rw [Field.get_write_of_ne hname, ih hl']
      simp [Ne.symm hij]

lemma Field.after_entry {f : Field} {value : f.Slot} {extFields : Props}
    (h : extFields.get f.name = f.entry value) (fresh : f.Slot) :
    (f.Omitted value → f.after extFields fresh = fresh) ∧
      (¬ f.Omitted value → f.after extFields fresh = value) := by
  cases f with
  | ofClass name => exact ⟨fun _ => by simp [after, given], fun hnot => absurd trivial hnot⟩
  | ofInstance name type cfNotNull =>
    simp only [entry, Field.name] at h
    simp only [Omitted, after]
    cases hthis : (Field.ofInstance name type cfNotNull).startsWithThis with
    | true => exact ⟨fun _ => rfl, fun hnot => absurd (Or.inl rfl) hnot⟩
    | false =>
      rw [hthis] at h
      simp only [Bool.false_eq_true, if_false] at h
      cases htext : type.text value with
      | none =>
        rw [htext] at h
        refine ⟨fun _ => ?_, fun hnot => absurd (Or.inr rfl) hnot⟩
        simp only [given, h, Bool.false_eq_true, if_false]
        rfl
      | some s =>
        rw [htext] at h
        refine ⟨fun hom => by simp at hom, fun _ => ?_⟩
        have hgiven : (Field.ofInstance name type cfNotNull).given extFields = some value := by
          rw [given, h]
          exact FieldType.parse_text htext
        rw [hgiven]
        rfl

/-! ### Marshalling -/

/-- A header comes back from the entries that it is written to. -/
def ReadsBack (header : Instance C.fields) : Prop :=
  decodeCommandCustomHeader
    (⟨none, (makeCustomHeaderToNet (createRequestCommand header)).extFields⟩ : RemotingCommand C) =
    .ok (some header)

def Faulty (C : HeaderClass) (extFields : Props) : Prop := ∃ f ∈ C.fields, f.Faulty extFields

/-- Exactly the maps with a fault are answered with an exception, and otherwise the fields that are
present have the values that are parsed. -/
structure Checks (C : HeaderClass) (extFields : Props) : Prop where
  throws : (∃ message,
    decodeCommandCustomHeader (⟨none, some extFields⟩ : RemotingCommand C) =
      .error (.remotingCommandException message)) ↔ Faulty C extFields
  returns : ¬ Faulty C extFields → ∃ fresh, C.newInstance = some fresh ∧
    decodeCommandCustomHeader (⟨none, some extFields⟩ : RemotingCommand C) =
      .ok (some fun i => ((C.fields.get i).given extFields).getD (fresh i))

lemma map_eq_ok_iff {checked : Except Thrown Unit} {α : Type} {a b : α} :
    checked.map (fun _ => some a) = .ok (some b) ↔ checked = .ok () ∧ a = b := by
  cases checked with
  | error e => simp [Except.map]
  | ok u => simp [Except.map]

lemma map_eq_error_iff {checked : Except Thrown Unit} {α : Type} {a : α} {e : Thrown} :
    checked.map (fun _ => some a) = .error e ↔ checked = .error e := by
  cases checked with
  | error e => simp [Except.map]
  | ok u => simp [Except.map]

/-- **Round trip.** A header comes back if and only if its class can be instantiated and accepts it,
and what is not written of it is what the constructor leaves there. -/
lemma readsBack_iff (header : Instance C.fields) :
    ReadsBack header ↔ ∃ fresh, C.newInstance = some fresh ∧
      (∀ i, (C.fields.get i).Omitted (header i) → header i = fresh i) ∧
      C.checkFields header = .ok () := by
  cases hfresh : C.newInstance with
  | none =>
    rw [ReadsBack, decode_of_newInstance_none hfresh]
    simp
  | some fresh =>
    let extFields := (List.finRange C.fields.length).foldl
      (fun extFields i => (C.fields.get i).write (header i) extFields) Props.empty
    have hget (i : Fin C.fields.length) :
        extFields.get (C.fields.get i).name = (C.fields.get i).entry (header i) := by
      have := get_foldl_write C.distinct header (List.nodup_finRange _) Props.empty i rfl
      rwa [if_pos (List.mem_finRange i)] at this
    have hdecode := decode_eq hfresh none extFields
    have hafter : (fun i => (C.fields.get i).after extFields (fresh i)) = header ↔
        ∀ i, (C.fields.get i).Omitted (header i) → header i = fresh i := by
      rw [funext_iff]
      refine forall_congr' fun i => ?_
      obtain ⟨hom, hnot⟩ := Field.after_entry (hget i) (fresh i)
      by_cases ho : (C.fields.get i).Omitted (header i)
      · rw [hom ho]
        exact ⟨fun h _ => h.symm, fun h => (h ho).symm⟩
      · rw [hnot ho]
        exact ⟨fun _ h => absurd h ho, fun _ => rfl⟩
    change decodeCommandCustomHeader (⟨none, some extFields⟩ : RemotingCommand C) = _ ↔ _
    rw [hdecode, map_eq_ok_iff]
    constructor
    · rintro ⟨hcheck, heq⟩
      exact ⟨fresh, rfl, hafter.mp heq, heq ▸ hcheck⟩
    · rintro ⟨fresh', heq, hom, hcheck⟩
      obtain rfl := Option.some.inj heq
      have := hafter.mpr hom
      exact ⟨this.symm ▸ hcheck, this⟩

/-- **Faults.** A fault is answered with an exception only where the check of the class throws one
for what could be read. -/
lemma checks_iff (C : HeaderClass) (extFields : Props) :
    Checks C extFields ↔ ∃ fresh, C.newInstance = some fresh ∧
      (Faulty C extFields → ∃ message,
        C.checkFields (fun i => (C.fields.get i).after extFields (fresh i)) =
          .error (.remotingCommandException message)) ∧
      (¬ Faulty C extFields →
        C.checkFields (fun i => ((C.fields.get i).given extFields).getD (fresh i)) = .ok () ∧
        ∀ i, (C.fields.get i).startsWithThis = true →
          ((C.fields.get i).given extFields).getD (fresh i) = fresh i) := by
  cases hfresh : C.newInstance with
  | none =>
    refine iff_of_false (fun h => ?_) (by simp)
    by_cases hf : Faulty C extFields
    · obtain ⟨message, hm⟩ := h.throws.mpr hf
      rw [decode_of_newInstance_none hfresh] at hm
      cases hm
    · obtain ⟨fresh, hfresh', -⟩ := h.returns hf
      rw [hfresh] at hfresh'
      cases hfresh'
  | some fresh =>
    have hdecode := decode_eq hfresh none extFields
    have hafter : (fun i => (C.fields.get i).after extFields (fresh i)) =
          (fun i => ((C.fields.get i).given extFields).getD (fresh i)) ↔
        ∀ i, (C.fields.get i).startsWithThis = true →
          ((C.fields.get i).given extFields).getD (fresh i) = fresh i := by
      rw [funext_iff]
      refine forall_congr' fun i => ?_
      rw [Field.after]
      cases (C.fields.get i).startsWithThis with
      | true => exact ⟨fun h _ => h.symm, fun h => (h rfl).symm⟩
      | false => exact ⟨fun _ hnot => (by cases hnot), fun _ => rfl⟩
    constructor
    · intro h
      refine ⟨fresh, rfl, fun hf => ?_, fun hf => ?_⟩
      · obtain ⟨message, hm⟩ := h.throws.mpr hf
        rw [hdecode, map_eq_error_iff] at hm
        exact ⟨message, hm⟩
      · obtain ⟨fresh', heq, hok⟩ := h.returns hf
        rw [hfresh, Option.some.injEq] at heq
        subst heq
        rw [hdecode, map_eq_ok_iff] at hok
        exact ⟨hok.2 ▸ hok.1, hafter.mp hok.2⟩
    · rintro ⟨fresh', heq, hbad, hgood⟩
      obtain rfl := Option.some.inj heq
      have hok (hf : ¬ Faulty C extFields) :
          decodeCommandCustomHeader (⟨none, some extFields⟩ : RemotingCommand C) =
            .ok (some fun i => ((C.fields.get i).given extFields).getD (fresh i)) := by
        obtain ⟨hcheck, hthis⟩ := hgood hf
        rw [hdecode, hafter.mpr hthis]
        exact map_eq_ok_iff.mpr ⟨hcheck, rfl⟩
      refine ⟨⟨?_, fun hf => ?_⟩, fun hf => ⟨fresh, hfresh, hok hf⟩⟩
      · rintro ⟨message, hm⟩
        by_contra hf
        rw [hok hf] at hm
        cases hm
      · obtain ⟨message, hm⟩ := hbad hf
        exact ⟨message, hdecode.trans (map_eq_error_iff.mpr hm)⟩

/-- **Custom headers.** When a header comes back, and when the check of a map is exact. -/
theorem marshalling_iff (C : HeaderClass) (header : Instance C.fields) (extFields : Props) :
    (ReadsBack header ↔ ∃ fresh, C.newInstance = some fresh ∧
      (∀ i, (C.fields.get i).Omitted (header i) → header i = fresh i) ∧
      C.checkFields header = .ok ()) ∧
    (Checks C extFields ↔ ∃ fresh, C.newInstance = some fresh ∧
      (Faulty C extFields → ∃ message,
        C.checkFields (fun i => (C.fields.get i).after extFields (fresh i)) =
          .error (.remotingCommandException message)) ∧
      (¬ Faulty C extFields →
        C.checkFields (fun i => ((C.fields.get i).given extFields).getD (fresh i)) = .ok () ∧
        ∀ i, (C.fields.get i).startsWithThis = true →
          ((C.fields.get i).given extFields).getD (fresh i) = fresh i)) :=
  ⟨readsBack_iff header, checks_iff C extFields⟩

/-! ### A header without a required field -/

/-- What a field holds before any constructor runs. -/
def FieldType.initial : (t : FieldType) → t.Value
  | string => none
  | integer => none
  | int => (0 : Int32)
  | boxedLong => none
  | long => (0 : Int64)
  | boxedBoolean => none
  | boolean => false

def Field.initial : (f : Field) → f.Slot
  | ofClass _ => ()
  | ofInstance _ type _ => type.initial

lemma distinct_topic_queueId : ((([.ofInstance "topic".toList .string true,
    .ofInstance "queueId".toList .integer true] : List Field)).map Field.name).Nodup := by
  decide

def GetMaxOffsetRequestHeader : HeaderClass where
  fields := [.ofInstance "topic".toList .string true, .ofInstance "queueId".toList .integer true]
  distinct := distinct_topic_queueId
  newInstance := some fun _ => Field.initial _
  checkFields _ := .ok ()

/-- The map gives a topic, and no queue. -/
def onlyTopic : Props := Props.empty.put "topic".toList "TopicTest".toList

theorem not_checks_onlyTopic : ¬ Checks GetMaxOffsetRequestHeader onlyTopic := by
  intro h
  have hfaulty : Faulty GetMaxOffsetRequestHeader onlyTopic :=
    ⟨.ofInstance "queueId".toList .integer true, by decide, Or.inl ⟨rfl, by decide⟩⟩
  obtain ⟨message, hm⟩ := h.throws.mpr hfaulty
  rw [decode_eq (C := GetMaxOffsetRequestHeader) rfl, map_eq_error_iff] at hm
  cases hm

end CloudMQ.CustomHeader
