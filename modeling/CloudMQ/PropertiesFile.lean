import Mathlib.Tactic

/-!
The format of properties files: natural lines, logical lines, keys and elements, and escapes.

A character is its code. An escape takes at least two characters for one, and a line terminator or
a backslash that is read was written by an escape. So characters can be given weights such that
what is read never weighs more than what it was read from, even if those that only an escape can
give weigh more in what is read.
-/

namespace CloudMQ.PropertiesFile

/-- Space, tab and form feed. -/
def isBlank (c : ℕ) : Bool := c == 32 || c == 9 || c == 12

/-- `=` and `:`. -/
def isSeparator (c : ℕ) : Bool := c == 61 || c == 58

/-! ### Lines -/

/-- The lines between line feeds, carriage returns, and pairs of both. -/
def naturalLines : Bool → List ℕ → List ℕ → List (List ℕ)
  | _, line, [] => if line = [] then [] else [line]
  | skipLF, line, c :: cs =>
    if skipLF = true ∧ c = 10 then naturalLines false line cs
    else if c = 13 then line :: naturalLines true [] cs
    else if c = 10 then line :: naturalLines false [] cs
    else naturalLines false (line ++ [c]) cs

/-- Ends in an odd number of backslashes. -/
def continues (line : List ℕ) : Bool := (line.reverse.takeWhile (· == 92)).length % 2 == 1

def isComment (line : List ℕ) : Bool := line.head?.any fun c => c == 35 || c == 33

/-- The lines with what they are continued by; blank lines and comments are left out. -/
def logicalLines : Option (List ℕ) → List (List ℕ) → List (List ℕ)
  | pending, [] => if pending.getD [] = [] then [] else [pending.getD []]
  | pending, natural :: rest =>
    if pending = none ∧ isComment (natural.dropWhile isBlank) = true then logicalLines none rest
    else if pending.getD [] ++ natural.dropWhile isBlank = [] then logicalLines none rest
    else if continues (natural.dropWhile isBlank) = true then
      logicalLines (some (pending.getD [] ++ (natural.dropWhile isBlank).dropLast)) rest
    else (pending.getD [] ++ natural.dropWhile isBlank) :: logicalLines none rest

/-! ### Keys, elements and escapes -/

/-- The key, up to the first blank or separator that is not escaped, and the rest of the line. -/
def readKey : Bool → List ℕ → List ℕ × List ℕ
  | _, [] => ([], [])
  | escape, c :: cs =>
    if escape = false ∧ (isBlank c || isSeparator c) = true then ([], c :: cs)
    else (c :: (readKey (c == 92 && !escape) cs).1, (readKey (c == 92 && !escape) cs).2)

/-- What follows the key, without the blanks and one separator before it. -/
def readElement (rest : List ℕ) : List ℕ :=
  match rest.dropWhile isBlank with
  | [] => []
  | c :: cs => if isSeparator c then cs.dropWhile isBlank else c :: cs

def hexDigit (c : ℕ) : Option ℕ :=
  if 48 ≤ c ∧ c ≤ 57 then some (c - 48)
  else if 97 ≤ c ∧ c ≤ 102 then some (c - 87)
  else if 65 ≤ c ∧ c ≤ 70 then some (c - 55)
  else none

/-- `XXXX` of an escape `\uXXXX`. -/
def hexValue (a b c d : ℕ) : Option ℕ :=
  (hexDigit a).bind fun a => (hexDigit b).bind fun b => (hexDigit c).bind fun c =>
    (hexDigit d).map fun d => ((a * 16 + b) * 16 + c) * 16 + d

/-- The character that a backslash and a letter stand for. -/
def escaped (c : ℕ) : ℕ :=
  if c = 116 then 9 else if c = 114 then 13 else if c = 110 then 10 else if c = 102 then 12 else c

/-- Takes the escapes away; `none` is a malformed `\uXXXX`. -/
def loadConvert : List ℕ → Option (List ℕ)
  | [] => some []
  | c :: cs =>
    if c = 92 then
      match cs with
      | [] => some []
      | e :: cs =>
        if e = 117 then
          match cs with
          | x₁ :: x₂ :: x₃ :: x₄ :: cs =>
            (hexValue x₁ x₂ x₃ x₄).bind fun v => (loadConvert cs).map fun r => v :: r
          | _ => none
        else (loadConvert cs).map fun r => escaped e :: r
    else (loadConvert cs).map fun r => c :: r

lemma loadConvert_cons {c : ℕ} (hc : c ≠ 92) (cs : List ℕ) :
    loadConvert (c :: cs) = (loadConvert cs).map fun r => c :: r := by
  rw [loadConvert.eq_def]
  simp only [if_neg hc]

lemma loadConvert_escape {e : ℕ} (he : e ≠ 117) (cs : List ℕ) :
    loadConvert (92 :: e :: cs) = (loadConvert cs).map fun r => escaped e :: r := by
  rw [loadConvert.eq_def]
  simp only [if_true, if_neg he]

def entry (line : List ℕ) : Option (List ℕ × List ℕ) :=
  (loadConvert (readKey false line).1).bind fun key =>
    (loadConvert (readElement (readKey false line).2)).map fun element => (key, element)

/-- The entries of a file in the order of their lines. -/
def load (chars : List ℕ) : Option (List (List ℕ × List ℕ)) :=
  (logicalLines none (naturalLines false [] chars)).mapM entry

/-! ### Weights -/

/-- The weight of a character in the file. -/
def weight (c : ℕ) : ℕ := if c = 92 then 2 else if c = 10 ∨ c = 13 ∨ c = 117 then 1 else 0

/-- A backslash or a line terminator. -/
def special (c : ℕ) : ℕ := if c = 92 ∨ c = 10 ∨ c = 13 then 1 else 0

def total (f : ℕ → ℕ) (cs : List ℕ) : ℕ := (cs.map f).sum

@[simp] lemma total_nil (f : ℕ → ℕ) : total f [] = 0 := rfl

@[simp] lemma total_cons (f : ℕ → ℕ) (c : ℕ) (cs : List ℕ) :
    total f (c :: cs) = f c + total f cs := rfl

@[simp] lemma total_append (f : ℕ → ℕ) (cs ds : List ℕ) :
    total f (cs ++ ds) = total f cs + total f ds := by
  simp [total]

lemma total_le_of_sublist (f : ℕ → ℕ) {cs ds : List ℕ} (h : cs.Sublist ds) :
    total f cs ≤ total f ds :=
  (h.map f).sum_le_sum fun _ _ => Nat.zero_le _

/-- The weight of a character that is read. -/
def cooked (c : ℕ) : ℕ := weight c + special c

lemma cooked_le (c : ℕ) : cooked c ≤ 3 := by
  unfold cooked weight special
  split_ifs <;> omega

lemma cooked_escaped (c : ℕ) : cooked (escaped c) ≤ 2 + weight c := by
  unfold escaped cooked weight special
  split_ifs <;> omega

lemma cooked_of_plain {c : ℕ} (h : c ≠ 10 ∧ c ≠ 13) (hc : c ≠ 92) : cooked c = weight c := by
  unfold cooked special
  rw [if_neg (by omega), Nat.add_zero]

/-- Has no line terminator. -/
def OneLine (cs : List ℕ) : Prop := ∀ c ∈ cs, c ≠ 10 ∧ c ≠ 13

lemma OneLine.of_cons {c : ℕ} {cs : List ℕ} (h : OneLine (c :: cs)) : OneLine cs := fun d hd =>
  h d (List.mem_cons_of_mem c hd)

lemma OneLine.sublist {cs ds : List ℕ} (h : OneLine ds) (hsub : cs.Sublist ds) : OneLine cs :=
  fun c hc => h c (hsub.mem hc)

lemma OneLine.append {cs ds : List ℕ} (h : OneLine cs) (h' : OneLine ds) : OneLine (cs ++ ds) :=
  fun c hc => (List.mem_append.mp hc).elim (h c) (h' c)

lemma cooked_loadConvert {cs ds : List ℕ} (hline : OneLine cs) (h : loadConvert cs = some ds) :
    total cooked ds ≤ total weight cs := by
  induction cs using loadConvert.induct generalizing ds with
  | case1 =>
    simp only [loadConvert, Option.some.injEq] at h
    subst h
    rfl
  | case2 =>
    simp only [loadConvert, if_true, Option.some.injEq] at h
    subst h
    exact Nat.zero_le _
  | case3 x₁ x₂ x₃ x₄ cs ih =>
    simp only [loadConvert, if_true, Option.bind_eq_some_iff, Option.map_eq_some_iff] at h
    obtain ⟨v, -, r, hr, rfl⟩ := h
    have := ih hline.of_cons.of_cons.of_cons.of_cons.of_cons.of_cons hr
    have := cooked_le v
    have : weight 92 = 2 ∧ weight 117 = 1 := by decide
    simp only [total_cons]
    omega
  | case4 cs _ =>
    rw [loadConvert.eq_def] at h
    simp only [if_true] at h
    cases h
  | case5 e cs he ih =>
    rw [loadConvert_escape he, Option.map_eq_some_iff] at h
    obtain ⟨r, hr, rfl⟩ := h
    have := ih hline.of_cons.of_cons hr
    have := cooked_escaped e
    have : weight 92 = 2 := by decide
    simp only [total_cons]
    omega
  | case6 c cs hc ih =>
    rw [loadConvert_cons hc, Option.map_eq_some_iff] at h
    obtain ⟨r, hr, rfl⟩ := h
    have := ih hline.of_cons hr
    have := cooked_of_plain (hline c List.mem_cons_self) hc
    simp only [total_cons]
    omega

lemma readKey_append (escape : Bool) (cs : List ℕ) :
    (readKey escape cs).1 ++ (readKey escape cs).2 = cs := by
  induction cs generalizing escape with
  | nil => rfl
  | cons c cs ih =>
    rw [readKey]
    split
    · rfl
    · rw [List.cons_append, ih]

lemma readElement_sublist (cs : List ℕ) : (readElement cs).Sublist cs := by
  have hdrop := List.dropWhile_sublist isBlank (l := cs)
  rw [readElement]
  split
  · exact List.nil_sublist cs
  · next c rest heq =>
    rw [heq] at hdrop
    split
    · exact ((List.dropWhile_sublist _).trans (List.sublist_cons_self c rest)).trans hdrop
    · exact hdrop

/-- What is read of a line weighs no more than the line. -/
lemma cooked_entry {line key element : List ℕ} (hline : OneLine line)
    (h : entry line = some (key, element)) :
    total cooked key + total cooked element ≤ total weight line := by
  rw [entry, Option.bind_eq_some_iff] at h
  obtain ⟨k, hk, h⟩ := h
  rw [Option.map_eq_some_iff] at h
  obtain ⟨e, he, heq⟩ := h
  obtain ⟨rfl, rfl⟩ := Prod.mk.inj heq
  have hparts := readKey_append false line
  have hsub := readElement_sublist (readKey false line).2
  have hleft : (readKey false line).1.Sublist line := by
    conv_rhs => rw [← hparts]
    exact List.sublist_append_left _ _
  have hright : (readKey false line).2.Sublist line := by
    conv_rhs => rw [← hparts]
    exact List.sublist_append_right _ _
  have h1 := cooked_loadConvert (hline.sublist hleft) hk
  have h2 := cooked_loadConvert (hline.sublist (hsub.trans hright)) he
  have h3 := total_le_of_sublist weight hsub
  have h4 := congrArg (total weight) hparts
  rw [total_append] at h4
  omega

/-- The weight of lines, with one terminator each. -/
def lineWeight (lines : List (List ℕ)) : ℕ := (lines.map fun line => total weight line + 1).sum

@[simp] lemma lineWeight_nil : lineWeight [] = 0 := rfl

@[simp] lemma lineWeight_cons (line : List ℕ) (lines : List (List ℕ)) :
    lineWeight (line :: lines) = total weight line + 1 + lineWeight lines := rfl

lemma naturalLines_oneLine {skipLF : Bool} {line cs : List ℕ} (h : OneLine line) :
    ∀ natural ∈ naturalLines skipLF line cs, OneLine natural := by
  have hnil : OneLine [] := fun _ hc => absurd hc List.not_mem_nil
  induction cs generalizing skipLF line with
  | nil =>
    rw [naturalLines]
    split
    · exact fun _ hn => absurd hn List.not_mem_nil
    · exact fun _ hn => List.mem_singleton.mp hn ▸ h
  | cons c cs ih =>
    rw [naturalLines]
    split_ifs with h1 h2 h3
    · exact ih h
    · exact List.forall_mem_cons.mpr ⟨h, ih hnil⟩
    · exact List.forall_mem_cons.mpr ⟨h, ih hnil⟩
    · refine ih (h.append fun d hd => ?_)
      rw [List.mem_singleton.mp hd]
      exact ⟨h3, h2⟩

/-- In a file that ends in a line feed every line has its terminator. -/
lemma lineWeight_naturalLines (skipLF : Bool) (line cs : List ℕ) :
    lineWeight (naturalLines skipLF line (cs ++ [10])) ≤
      total weight line + total weight cs + 1 := by
  induction cs generalizing skipLF line with
  | nil =>
    have hlast (skipLF : Bool) : lineWeight (naturalLines skipLF line []) ≤
        total weight line + 1 := by
      rw [naturalLines]
      split <;> simp
    rw [List.nil_append, naturalLines]
    by_cases h : skipLF = true
    · rw [if_pos ⟨h, rfl⟩]
      simpa using hlast false
    · rw [if_neg (by simp [h]), if_neg (by decide), if_pos rfl]
      simp [naturalLines]
  | cons c cs ih =>
    rw [List.cons_append, naturalLines]
    split_ifs with h1 h2 h3
    · have := ih false line
      simp only [total_cons]
      omega
    · have := ih true []
      have : weight 13 = 1 := by decide
      simp only [lineWeight_cons, total_cons, total_nil, h2] at *
      omega
    · have := ih false []
      have : weight 10 = 1 := by decide
      simp only [lineWeight_cons, total_cons, total_nil, h3] at *
      omega
    · have := ih false (line ++ [c])
      simp only [total_append, total_cons, total_nil] at *
      omega

lemma logicalLines_oneLine {pending : Option (List ℕ)} {lines : List (List ℕ)}
    (hpending : OneLine (pending.getD [])) (h : ∀ natural ∈ lines, OneLine natural) :
    ∀ line ∈ logicalLines pending lines, OneLine line := by
  have hnil : OneLine ((none : Option (List ℕ)).getD []) := fun _ hc =>
    absurd hc List.not_mem_nil
  induction lines generalizing pending with
  | nil =>
    rw [logicalLines]
    split
    · exact fun _ hn => absurd hn List.not_mem_nil
    · exact fun _ hn => List.mem_singleton.mp hn ▸ hpending
  | cons natural rest ih =>
    obtain ⟨hnatural, hrest⟩ := List.forall_mem_cons.mp h
    have hpart := hnatural.sublist (List.dropWhile_sublist isBlank)
    rw [logicalLines]
    split_ifs with h1 h2 h3
    · exact ih hnil hrest
    · exact ih hnil hrest
    · exact ih (hpending.append (hpart.sublist (List.dropLast_sublist _))) hrest
    · exact List.forall_mem_cons.mpr ⟨hpending.append hpart, ih hnil hrest⟩

lemma lineWeight_logicalLines (pending : Option (List ℕ)) (lines : List (List ℕ)) :
    lineWeight (logicalLines pending lines) ≤
      total weight (pending.getD []) + (if pending.getD [] = [] then 0 else 1) +
        lineWeight lines := by
  induction lines generalizing pending with
  | nil =>
    rw [logicalLines]
    split_ifs <;> simp
  | cons natural rest ih =>
    have hpart := total_le_of_sublist weight (List.dropWhile_sublist isBlank (l := natural))
    have hnone := ih none
    simp only [Option.getD_none, total_nil, if_true] at hnone
    have hge : total weight (pending.getD []) + lineWeight (natural :: rest) ≤
        total weight (pending.getD []) + (if pending.getD [] = [] then 0 else 1) +
          lineWeight (natural :: rest) := by omega
    refine le_trans ?_ hge
    rw [lineWeight_cons, logicalLines]
    split_ifs with h1 h2 h3
    · omega
    · omega
    · have hmore := ih (some (pending.getD [] ++ (natural.dropWhile isBlank).dropLast))
      have hlast := total_le_of_sublist weight (List.dropLast_sublist (natural.dropWhile isBlank))
      simp only [Option.getD_some, total_append] at hmore
      split_ifs at hmore <;> omega
    · simp only [lineWeight_cons, total_append]
      omega

/-- The weight of entries, with one terminator each. -/
def entriesWeight (f : ℕ → ℕ) (entries : List (List ℕ × List ℕ)) : ℕ :=
  (entries.map fun e => total f e.1 + total f e.2 + 1).sum

lemma entriesWeight_mapM {lines : List (List ℕ)} {entries : List (List ℕ × List ℕ)}
    (hlines : ∀ line ∈ lines, OneLine line) (h : lines.mapM entry = some entries) :
    entriesWeight cooked entries ≤ lineWeight lines := by
  induction lines generalizing entries with
  | nil =>
    simp only [List.mapM_nil, Option.pure_def, Option.some.injEq] at h
    subst h
    rfl
  | cons line lines ih =>
    obtain ⟨hline, hlines⟩ := List.forall_mem_cons.mp hlines
    simp only [List.mapM_cons, Option.bind_eq_bind, Option.bind_eq_some_iff, Option.pure_def,
      Option.some.injEq] at h
    obtain ⟨e, he, es, hes, rfl⟩ := h
    obtain ⟨key, element⟩ := e
    have h1 := cooked_entry hline he
    have h2 := ih hlines hes
    simp only [entriesWeight, List.map_cons, List.sum_cons, lineWeight_cons] at *
    omega

/-- **Weights.** The entries of a file weigh no more than the file. -/
theorem entriesWeight_load {cs : List ℕ} {entries : List (List ℕ × List ℕ)}
    (h : load (cs ++ [10]) = some entries) :
    entriesWeight cooked entries ≤ total weight (cs ++ [10]) := by
  have hnil : OneLine [] := fun _ hc => absurd hc List.not_mem_nil
  have hlines : ∀ line ∈ logicalLines none (naturalLines false [] (cs ++ [10])), OneLine line :=
    logicalLines_oneLine hnil (naturalLines_oneLine hnil)
  have h1 := entriesWeight_mapM hlines h
  have h2 := lineWeight_logicalLines none (naturalLines false [] (cs ++ [10]))
  have h3 := lineWeight_naturalLines false [] cs
  have : weight 10 = 1 := by decide
  simp only [Option.getD_none, total_nil, if_true, total_append, total_cons] at *
  omega

/-! ### Files without escapes -/

/-- Has nothing that is read in another way. -/
structure Word (key : List ℕ) : Prop where
  nonempty : key ≠ []
  char : ∀ c ∈ key, isBlank c = false ∧ isSeparator c = false ∧ c ≠ 35 ∧ c ≠ 33
  oneLine : OneLine key
  noEscape : 92 ∉ key

/-- Has no line terminator, and no backslash. -/
structure Plain (element : List ℕ) : Prop where
  oneLine : OneLine element
  noEscape : 92 ∉ element

/-- Keys and elements with `=` between them, a line each. -/
def file (entries : List (List ℕ × List ℕ)) : List ℕ :=
  entries.flatMap fun e => e.1 ++ 61 :: e.2 ++ [10]

lemma naturalLines_line {line : List ℕ} (h : OneLine line) (before rest : List ℕ) :
    naturalLines false before (line ++ 10 :: rest) =
      (before ++ line) :: naturalLines false [] rest := by
  induction line generalizing before with
  | nil => simp [naturalLines]
  | cons c line ih =>
    obtain ⟨h10, h13⟩ := h c List.mem_cons_self
    rw [List.cons_append, naturalLines, if_neg (by simp), if_neg h13, if_neg h10,
      ih h.of_cons, List.append_assoc, List.singleton_append]

lemma continues_eq_false {line : List ℕ} (h : 92 ∉ line) : continues line = false := by
  have hrev : line.reverse.takeWhile (· == 92) = [] := by
    cases hr : line.reverse with
    | nil => rfl
    | cons c cs =>
      refine List.takeWhile_cons_of_neg ?_
      have hc : c ∈ line := List.mem_reverse.mp (hr ▸ List.mem_cons_self)
      simp only [beq_iff_eq]
      rintro rfl
      exact h hc
  rw [continues, hrev]
  rfl

lemma loadConvert_self {cs : List ℕ} (h : 92 ∉ cs) : loadConvert cs = some cs := by
  induction cs with
  | nil => rfl
  | cons c cs ih =>
    rw [List.mem_cons, not_or] at h
    rw [loadConvert_cons (Ne.symm h.1), ih h.2, Option.map_some]

lemma readKey_word {key : List ℕ} (h : Word key) (rest : List ℕ) :
    readKey false (key ++ 61 :: rest) = (key, 61 :: rest) := by
  have hchars : ∀ c ∈ key, isBlank c = false ∧ isSeparator c = false ∧ c ≠ 92 := fun c hc =>
    ⟨(h.char c hc).1, (h.char c hc).2.1, fun heq => h.noEscape (heq ▸ hc)⟩
  clear h
  induction key with
  | nil => rfl
  | cons c key ih =>
    obtain ⟨hblank, hsep, hescape⟩ := hchars c List.mem_cons_self
    have hb : (c == 92 && !false) = false := by simp [hescape]
    rw [List.cons_append, readKey, if_neg (by simp [hblank, hsep]), hb,
      ih fun d hd => hchars d (List.mem_cons_of_mem c hd)]

lemma entry_line {key element : List ℕ} (hkey : Word key) (helement : Plain element) :
    entry (key ++ 61 :: element) = some (key, element.dropWhile isBlank) := by
  have hread : readElement (61 :: element) = element.dropWhile isBlank := rfl
  have hdrop : 92 ∉ element.dropWhile isBlank := fun h =>
    helement.noEscape ((List.dropWhile_sublist isBlank).mem h)
  rw [entry, readKey_word hkey, loadConvert_self hkey.noEscape, Option.bind_some, hread,
    loadConvert_self hdrop, Option.map_some]

lemma logicalLines_line {key element : List ℕ} (hkey : Word key) (helement : Plain element)
    (rest : List (List ℕ)) :
    logicalLines none ((key ++ 61 :: element) :: rest) =
      (key ++ 61 :: element) :: logicalLines none rest := by
  obtain ⟨c, cs, rfl⟩ := List.exists_cons_of_ne_nil hkey.nonempty
  obtain ⟨hblank, -, h35, h33⟩ := hkey.char c List.mem_cons_self
  have hdrop : (c :: cs ++ 61 :: element).dropWhile isBlank = c :: cs ++ 61 :: element :=
    List.dropWhile_cons_of_neg (by simp [hblank])
  have hcomment : isComment (c :: cs ++ 61 :: element) = false := by simp [isComment, h35, h33]
  have hescape : 92 ∉ c :: cs ++ 61 :: element := fun h => by
    rcases List.mem_append.mp h with h | h
    · exact hkey.noEscape h
    · rcases List.mem_cons.mp h with h | h
      · exact absurd h (by decide)
      · exact helement.noEscape h
  have hends := continues_eq_false hescape
  rw [logicalLines, hdrop, if_neg fun hc => absurd (hcomment.symm.trans hc.2) (by decide),
    if_neg (by simp), if_neg fun hc => absurd (hends.symm.trans hc) (by decide)]
  rfl

lemma oneLine_line {key element : List ℕ} (hkey : Word key) (helement : Plain element) :
    OneLine (key ++ 61 :: element) :=
  hkey.oneLine.append (List.forall_mem_cons.mpr ⟨by decide, helement.oneLine⟩)

lemma mapM_entry {entries : List (List ℕ × List ℕ)}
    (h : ∀ e ∈ entries, Word e.1 ∧ Plain e.2) :
    (entries.map fun e => e.1 ++ 61 :: e.2).mapM entry =
      some (entries.map fun e => (e.1, e.2.dropWhile isBlank)) := by
  induction entries with
  | nil => rfl
  | cons e entries ih =>
    obtain ⟨⟨hkey, helement⟩, hrest⟩ := List.forall_mem_cons.mp h
    rw [List.map_cons, List.mapM_cons, entry_line hkey helement, ih hrest]
    rfl

lemma logicalLines_file {entries : List (List ℕ × List ℕ)}
    (h : ∀ e ∈ entries, Word e.1 ∧ Plain e.2) :
    logicalLines none (naturalLines false [] (file entries)) =
      entries.map fun e => e.1 ++ 61 :: e.2 := by
  induction entries with
  | nil => rfl
  | cons e entries ih =>
    obtain ⟨⟨hkey, helement⟩, hrest⟩ := List.forall_mem_cons.mp h
    have hfile : file (e :: entries) = (e.1 ++ 61 :: e.2) ++ 10 :: file entries := by
      simp [file]
    rw [hfile, naturalLines_line (oneLine_line hkey helement), List.nil_append,
      logicalLines_line hkey helement, ih hrest, List.map_cons]

/-- **Plain files.** Without escapes the entries are read as they stand, but for blanks in front of
the elements. -/
theorem load_file {entries : List (List ℕ × List ℕ)}
    (h : ∀ e ∈ entries, Word e.1 ∧ Plain e.2) :
    load (file entries) = some (entries.map fun e => (e.1, e.2.dropWhile isBlank)) := by
  rw [load, logicalLines_file h, mapM_entry h]

end CloudMQ.PropertiesFile
