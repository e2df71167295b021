import Mathlib.Data.List.DropRight
import CloudMQ.Utf8

/-!
The string operations of the Java library that the store relies on, over text as a list of
Unicode scalar values: length and hash over UTF-16 units, splitting at a character, decimal
numbers.
-/

namespace CloudMQ.Strings

open CloudMQ.Utf8

/-- The UTF-16 units of a character: itself, or a surrogate pair. -/
def utf16Char (c : Char) : List ℕ :=
  if c.toNat < 0x10000 then [c.toNat]
  else [0xD800 + (c.toNat - 0x10000) / 0x400, 0xDC00 + (c.toNat - 0x10000) % 0x400]

def utf16 (s : Text) : List ℕ := s.flatMap utf16Char

/-- `String.length()`. -/
def length (s : Text) : ℕ := (utf16 s).length

lemma length_lt_one_iff {s : Text} : length s < 1 ↔ s = [] := by
  constructor
  · intro h
    cases s with
    | nil => rfl
    | cons c s =>
      have hc : utf16Char c ≠ [] := by
        rw [utf16Char]
        split_ifs <;> exact List.cons_ne_nil _ _
      rw [length, Nat.lt_one_iff, List.length_eq_zero_iff, utf16, List.flatMap_cons,
        List.append_eq_nil_iff] at h
      exact absurd h.1 hc
  · rintro rfl
    exact Nat.one_pos

/-- `String.hashCode()`. -/
def hashCode (s : Text) : Int32 := (utf16 s).foldl (fun h u => 31 * h + Int32.ofNat u) 0

/-- `String.split` at one character: trailing empty pieces are dropped, and a string without
the separator is returned as it is. -/
def split (sep : Char) (s : Text) : List Text :=
  if sep ∈ s then (s.splitOn sep).rdropWhile List.isEmpty else [s]

/-- The pieces between the places where the separator stands twice, found from the left. -/
def pieces (sep : Char) : Text → List Text
  | [] => [[]]
  | [c] => [[c]]
  | c :: d :: s =>
    if c = sep ∧ d = sep then [] :: pieces sep s
    else (pieces sep (d :: s)).modifyHead (c :: ·)

/-- `String.split` at a doubled character; a single piece is the string itself. -/
def splitDouble (sep : Char) (s : Text) : List Text :=
  match pieces sep s with
  | [p] => [p]
  | ps => ps.rdropWhile List.isEmpty

/-- Only empty pieces are dropped. -/
lemma mem_splitDouble {sep : Char} {s p : Text} (hp : p ≠ []) :
    p ∈ splitDouble sep s ↔ p ∈ pieces sep s := by
  rw [splitDouble]
  split
  · rename_i q hq
    rw [hq]
  · constructor
    · exact fun hmem => (List.rdropWhile_prefix _ _).subset hmem
    · intro hmem
      rw [← List.rdropWhile_append_rtakeWhile (p := List.isEmpty) (l := pieces sep s)] at hmem
      refine (List.mem_append.mp hmem).resolve_right fun hdropped => ?_
      exact hp (List.isEmpty_iff.mp (List.mem_rtakeWhile_imp hdropped))

/-- `String.trim`. -/
def trim (s : Text) : Text := (s.dropWhile (· ≤ ' ')).rdropWhile (· ≤ ' ')

/-- `Character.isWhitespace`: the control characters, and the spaces that are not non-breaking. -/
def isWhitespace (c : Char) : Bool :=
  (0x9 ≤ c.toNat && c.toNat ≤ 0xD) || (0x1C ≤ c.toNat && c.toNat ≤ 0x20) || c.toNat = 0x1680 ||
  c.toNat = 0x180E || (0x2000 ≤ c.toNat && c.toNat ≤ 0x200A && c.toNat ≠ 0x2007) ||
  c.toNat = 0x2028 || c.toNat = 0x2029 || c.toNat = 0x205F || c.toNat = 0x3000

/-- `UtilAll.isBlank`, of a string that is there. -/
def isBlank (s : Text) : Bool := s.all isWhitespace

/-! ### Decimal numbers -/

/-- The zeros of the decimal digit ranges of the basic plane. -/
def decimalZeros : List ℕ :=
  [0x30, 0x660, 0x6F0, 0x7C0, 0x966, 0x9E6, 0xA66, 0xAE6, 0xB66, 0xBE6, 0xC66, 0xCE6, 0xD66,
   0xE50, 0xED0, 0xF20, 0x1040, 0x1090, 0x17E0, 0x1810, 0x1946, 0x19D0, 0x1A80, 0x1A90, 0x1B50,
   0x1BB0, 0x1C40, 0x1C50, 0xA620, 0xA8D0, 0xA900, 0xA9D0, 0xAA50, 0xABF0, 0xFF10]

/-- `Character.digit(c, 10)`. -/
def digit (c : Char) : Option ℕ :=
  (decimalZeros.find? fun z => z ≤ c.toNat && c.toNat < z + 10).map (c.toNat - ·)

def digits (s : Text) : Option ℕ :=
  s.foldl (fun acc c => acc.bind fun a => (digit c).map (a * 10 + ·)) (some 0)

def unsigned (negative : Bool) (s : Text) : Option Int32 :=
  if s = [] then none
  else (digits s).bind fun n =>
    if negative then (if n ≤ 2 ^ 31 then some (Int32.ofInt (-n)) else none)
    else (if n < 2 ^ 31 then some (Int32.ofNat n) else none)

/-- `Integer.parseInt`; `none` is a `NumberFormatException`. -/
def parseInt : Text → Option Int32
  | '-' :: s => unsigned true s
  | '+' :: s => unsigned false s
  | s => unsigned false s

/-- `String.valueOf(int)`. -/
def valueOf (n : Int32) : Text :=
  if n.toInt < 0 then '-' :: Nat.toDigits 10 n.toInt.natAbs else Nat.toDigits 10 n.toInt.natAbs

lemma digit_of_isDigit {c : Char} (h : c.isDigit) : digit c = some (c.toNat - '0'.toNat) := by
  have hc : 0x30 ≤ c.toNat ∧ c.toNat < 0x30 + 10 := by
    simp only [Char.isDigit, Bool.and_eq_true, decide_eq_true_eq] at h
    obtain ⟨h1, h2⟩ := h
    have h1' : ('0' : Char).val.toNat ≤ c.val.toNat := h1
    have h2' : c.val.toNat ≤ ('9' : Char).val.toNat := h2
    constructor
    · simpa using h1'
    · have : c.val.toNat ≤ 57 := by simpa using h2'
      change c.val.toNat < 58
      omega
  have hfind : decimalZeros.find? (fun z => z ≤ c.toNat && c.toNat < z + 10) = some 0x30 := by
    rw [decimalZeros, List.find?_cons_of_pos]
    simpa using hc
  rw [digit, hfind]
  rfl

lemma digits_of_isDigit (s : Text) (h : ∀ c ∈ s, c.isDigit) :
    digits s = some (Nat.ofDigitChars 10 s 0) := by
  suffices hs : ∀ a, s.foldl (fun acc c => acc.bind fun a => (digit c).map (a * 10 + ·)) (some a) =
      some (Nat.ofDigitChars 10 s a) from hs 0
  induction s with
  | nil => intro a; rfl
  | cons c s ih =>
    intro a
    have hc := digit_of_isDigit (h c (by simp))
    rw [List.foldl_cons, Option.bind_some, hc, Option.map_some,
      ih (fun d hd => h d (by simp [hd])), Nat.ofDigitChars_cons, Nat.mul_comm a 10]

lemma digits_toDigits (n : ℕ) : digits (Nat.toDigits 10 n) = some n := by
  rw [digits_of_isDigit _ fun c hc => Nat.isDigit_of_mem_toDigits (by omega) (by omega) hc,
    Nat.ofDigitChars_ten_toDigits]

/-- A decimal writing begins with no sign. -/
lemma toDigits_ne_cons {n : ℕ} {c : Char} (hc : ¬ c.isDigit) (s : Text) :
    Nat.toDigits 10 n ≠ c :: s := by
  intro h
  exact hc (Nat.isDigit_of_mem_toDigits (by omega) (by omega) (h ▸ List.mem_cons_self))

/-- A non-negative number reads back from its decimal writing. -/
theorem parseInt_valueOf {n : Int32} (h : 0 ≤ n.toInt) : parseInt (valueOf n) = some n := by
  have hne : Nat.toDigits 10 n.toInt.natAbs ≠ [] := Nat.toDigits_ne_nil
  have hsign : parseInt (Nat.toDigits 10 n.toInt.natAbs) =
      unsigned false (Nat.toDigits 10 n.toInt.natAbs) := by
    unfold parseInt
    split
    · next s hs => exact absurd hs (toDigits_ne_cons (by decide) s)
    · next s hs => exact absurd hs (toDigits_ne_cons (by decide) s)
    · rfl
  have hlt : n.toInt.natAbs < 2 ^ 31 := by
    have := n.toInt_lt
    omega
  rw [valueOf, if_neg (by omega), hsign, unsigned, if_neg hne, digits_toDigits, Option.bind_some,
    if_neg (by simp), if_pos hlt]
  congr 1
  have hn : (n.toInt.natAbs : ℤ) = n.toInt := by omega
  rw [← Int32.ofInt_eq_ofNat, hn, Int32.ofInt_toInt]

lemma parseInt_valueOf_neg {n : Int32} (h : n.toInt < 0) : parseInt (valueOf n) = some n := by
  have hne : Nat.toDigits 10 n.toInt.natAbs ≠ [] := Nat.toDigits_ne_nil
  have hle : n.toInt.natAbs ≤ 2 ^ 31 := by
    have := n.le_toInt
    omega
  have hn : (-(n.toInt.natAbs : ℤ)) = n.toInt := by omega
  rw [valueOf, if_pos h]
  change unsigned true (Nat.toDigits 10 n.toInt.natAbs) = some n
  rw [unsigned, if_neg hne, digits_toDigits, Option.bind_some, if_pos rfl, if_pos hle, hn,
    Int32.ofInt_toInt]

/-- A number reads back from its decimal writing. -/
theorem parseInt_valueOf_self (n : Int32) : parseInt (valueOf n) = some n := by
  rcases lt_or_ge n.toInt 0 with h | h
  · exact parseInt_valueOf_neg h
  · exact parseInt_valueOf h

end CloudMQ.Strings
