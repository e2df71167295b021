import CloudMQ.Postfix

/-!
Filter expressions: `PolishExpr` takes a string apart into operands and operators, and brings them
into postfix form.

The tokenizer goes by the class of the character before, and keeps the word it is in as a start and
a length. Beside it stands a scanner that keeps the word itself; the two agree on every string that
does not begin with the character of an operator, where the tokenizer has no start for the word.
-/

namespace CloudMQ.PolishExpr

/-- A string, as its code units. -/
abbrev Chars := List UInt16

def chars (s : String) : Chars := s.toList.map fun c => UInt16.ofNat c.toNat

inductive Operator
  | LEFTPARENTHESIS
  | RIGHTPARENTHESIS
  | AND
  | OR
deriving DecidableEq

namespace Operator

def symbol : Operator → Chars
  | LEFTPARENTHESIS => [40]
  | RIGHTPARENTHESIS => [41]
  | AND => [38, 38]
  | OR => [124, 124]

def priority : Operator → ℕ
  | LEFTPARENTHESIS => 30
  | RIGHTPARENTHESIS => 30
  | AND => 20
  | OR => 15

def isCompareable : Operator → Bool
  | LEFTPARENTHESIS => false
  | RIGHTPARENTHESIS => false
  | AND => true
  | OR => true

/-- `-1` is less, `0` equal and `1` greater. -/
def compare (self operator : Operator) : ℤ :=
  if operator.priority < self.priority then 1
  else if self.priority = operator.priority then 0
  else -1

end Operator

open Operator

/-- The texts of the exceptions, with what they name. -/
inductive Message
  | illegalExpression (index : ℕ) (ch : UInt16)
  | unsupportOperator (operator : Chars)
  | mismatchedParentheses (operator : Option Operator)
deriving DecidableEq

inductive Thrown
  | illegalArgumentException (message : Message)
  | stringIndexOutOfBoundsException (index : ℤ)
deriving DecidableEq

def createOperator (operator : Chars) : Except Thrown Operator :=
  if LEFTPARENTHESIS.symbol = operator then .ok LEFTPARENTHESIS
  else if RIGHTPARENTHESIS.symbol = operator then .ok RIGHTPARENTHESIS
  else if AND.symbol = operator then .ok AND
  else if OR.symbol = operator then .ok OR
  else .error (.illegalArgumentException (.unsupportOperator operator))

/-- An `Operand` or an `Operator`. -/
abbrev Op := Postfix.Token Chars Operator

open CloudMQ.Postfix.Token (operand operator)

/-! ### Words -/

inductive CharType
  | NULL
  | OPERAND
  | OPERATOR
  | PARENTHESIS
  | SEPAERATOR
deriving DecidableEq

def isOperandChar (ch : UInt16) : Bool :=
  (97 ≤ ch && ch ≤ 122) || (65 ≤ ch && ch ≤ 90) || (49 ≤ ch && ch ≤ 57) || 95 == ch

def isParenthesisChar (ch : UInt16) : Bool := 40 == ch || 41 == ch

def isOperatorChar (ch : UInt16) : Bool := 38 == ch || 124 == ch

def isSeparatorChar (ch : UInt16) : Bool := 32 == ch || 9 == ch

/-- The variables of the loop in `participle`. -/
structure Reading where
  segments : List Op := []
  wordStartIndex : ℤ := -1
  wordLen : ℕ := 0
  preType : CharType := .NULL

def substring (s : Chars) (beginIndex endIndex : ℤ) : Except Thrown Chars :=
  if beginIndex < 0 then .error (.stringIndexOutOfBoundsException beginIndex)
  else if s.length < endIndex then .error (.stringIndexOutOfBoundsException endIndex)
  else if endIndex < beginIndex then
    .error (.stringIndexOutOfBoundsException (endIndex - beginIndex))
  else .ok ((s.drop beginIndex.toNat).take (endIndex - beginIndex).toNat)

/-- The word the reading is in. -/
def word (expression : Chars) (st : Reading) : Except Thrown Chars :=
  substring expression st.wordStartIndex (st.wordStartIndex + st.wordLen)

/-- `segments.add(createOperator(..))` -/
def addOperator (expression : Chars) (st : Reading) : Except Thrown Reading :=
  (word expression st).bind fun w => (createOperator w).map fun op =>
    { st with segments := st.segments ++ [operator op] }

/-- `segments.add(new Operand(..))` -/
def addOperand (expression : Chars) (st : Reading) : Except Thrown Reading :=
  (word expression st).map fun w => { st with segments := st.segments ++ [operand w] }

/-- A parenthesis or a separator ends the word. -/
def endWord (expression : Chars) (st : Reading) : Except Thrown Reading :=
  if st.preType = .OPERATOR then
    (addOperator expression st).map fun st => { st with wordStartIndex := -1, wordLen := 0 }
  else if st.preType = .OPERAND then
    (addOperand expression st).map fun st => { st with wordStartIndex := -1, wordLen := 0 }
  else .ok st

/-- One character of the expression. -/
def readChar (expression : Chars) (i : ℕ) (ch : UInt16) (st : Reading) : Except Thrown Reading :=
  if isOperandChar ch then
    (if st.preType = .OPERATOR ∨ st.preType = .SEPAERATOR ∨ st.preType = .NULL ∨
        st.preType = .PARENTHESIS then
      (if st.preType = .OPERATOR then addOperator expression st else .ok st).map fun st =>
        { st with wordStartIndex := i, wordLen := 0 }
    else .ok st).map fun st => { st with preType := .OPERAND, wordLen := st.wordLen + 1 }
  else if isParenthesisChar ch then
    (endWord expression st).bind fun st => (createOperator [ch]).map fun op =>
      { st with preType := .PARENTHESIS, segments := st.segments ++ [operator op] }
  else if isOperatorChar ch then
    -- at the begin of the string no word is started
    (if st.preType = .OPERAND ∨ st.preType = .SEPAERATOR ∨ st.preType = .PARENTHESIS then
      (if st.preType = .OPERAND then addOperand expression st else .ok st).map fun st =>
        { st with wordStartIndex := i, wordLen := 0 }
    else .ok st).map fun st => { st with preType := .OPERATOR, wordLen := st.wordLen + 1 }
  else if isSeparatorChar ch then
    (endWord expression st).map fun st => { st with preType := .SEPAERATOR }
  else .error (.illegalArgumentException (.illegalExpression i ch))

def readFrom (expression : Chars) : ℕ → Chars → Reading → Except Thrown Reading
  | _, [], st => .ok st
  | i, ch :: rest, st =>
    (readChar expression i ch st).bind fun st => readFrom expression (i + 1) rest st

/-- The word at the end, which is taken for an operand. -/
def finish (expression : Chars) (st : Reading) : Except Thrown (List Op) :=
  if 0 < st.wordLen then (addOperand expression st).map Reading.segments else .ok st.segments

def participle (expression : Chars) : Except Thrown (List Op) :=
  (readFrom expression 0 expression {}).bind (finish expression)

/-! ### The postfix form -/

/-- The operators above the topmost left parenthesis, and those below it. -/
def unwind : List Operator → Option (List Operator × List Operator)
  | [] => none
  | op :: operatorStack =>
    if op = LEFTPARENTHESIS then some ([], operatorStack)
    else (unwind operatorStack).map fun r => (op :: r.1, r.2)

/-- One token, with the segments and the stack of operators so far. -/
def readToken (token : Op) (segments : List Op) (operatorStack : List Operator) :
    Except Thrown (List Op × List Operator) :=
  match token with
  | operand _ => .ok (segments ++ [token], operatorStack)
  | operator LEFTPARENTHESIS => .ok (segments, LEFTPARENTHESIS :: operatorStack)
  | operator RIGHTPARENTHESIS =>
    match unwind operatorStack with
    | some (popped, rest) => .ok (segments ++ popped.map operator, rest)
    | none => .error (.illegalArgumentException (.mismatchedParentheses none))
  | operator opNew =>
    match operatorStack with
    | [] => .ok (segments, [opNew])
    | opOld :: rest =>
      -- one operator at most is popped
      if opOld.isCompareable && opNew.compare opOld ≠ 1 then
        .ok (segments ++ [operator opOld], opNew :: rest)
      else .ok (segments, opNew :: operatorStack)

def readTokens : List Op → List Op → List Operator → Except Thrown (List Op × List Operator)
  | [], segments, operatorStack => .ok (segments, operatorStack)
  | token :: tokens, segments, operatorStack =>
    (readToken token segments operatorStack).bind fun r => readTokens tokens r.1 r.2

/-- What is left on the stack at the end. -/
def popAll : List Operator → List Op → Except Thrown (List Op)
  | [], segments => .ok segments
  | op :: operatorStack, segments =>
    if LEFTPARENTHESIS = op ∨ RIGHTPARENTHESIS = op then
      .error (.illegalArgumentException (.mismatchedParentheses (some op)))
    else popAll operatorStack (segments ++ [operator op])

def reversePolishTokens (tokens : List Op) : Except Thrown (List Op) :=
  (readTokens tokens [] []).bind fun r => popAll r.2 r.1

def reversePolish (expression : Chars) : Except Thrown (List Op) :=
  (participle expression).bind reversePolishTokens

/-! ### A scanner -/

/-- The class of a character; `none` if it is illegal. -/
def charType (ch : UInt16) : Option CharType :=
  if isOperandChar ch then some .OPERAND
  else if isParenthesisChar ch then some .PARENTHESIS
  else if isOperatorChar ch then some .OPERATOR
  else if isSeparatorChar ch then some .SEPAERATOR
  else none

/-- The characters of this class make words. -/
def CharType.isWord (t : CharType) : Bool := t = .OPERAND || t = .OPERATOR

/-- The token of a word before the end of the string. -/
def flush (preType : CharType) (word : Chars) : Except Thrown (List Op) :=
  if preType = .OPERATOR then (createOperator word).map fun op => [operator op]
  else if preType = .OPERAND then .ok [operand word]
  else .ok []

/-- The token that a character makes by itself. -/
def parenthesis (t : CharType) (ch : UInt16) : List Op :=
  if t = .PARENTHESIS then [operator (if ch = 40 then LEFTPARENTHESIS else RIGHTPARENTHESIS)]
  else []

/-- The word that a character begins. -/
def beginWord (t : CharType) (ch : UInt16) : Chars := if t.isWord then [ch] else []

/-- The tokens from a position on, in a word of the given class. -/
def lex : ℕ → CharType → Chars → Chars → Except Thrown (List Op)
  | _, _, word, [] => .ok (if word = [] then [] else [operand word])
  | i, preType, word, ch :: rest =>
    match charType ch with
    | none => .error (.illegalArgumentException (.illegalExpression i ch))
    | some t =>
      if t = preType ∧ t.isWord then lex (i + 1) t (word ++ [ch]) rest
      else (flush preType word).bind fun ts =>
        (lex (i + 1) t (beginWord t ch) rest).map fun us => ts ++ parenthesis t ch ++ us

/-- The reading is in this word, at this position. -/
structure InWord (expression : Chars) (i : ℕ) (st : Reading) (w : Chars) : Prop where
  wordLen : st.wordLen = w.length
  start : st.preType.isWord → w ≠ [] ∧ ∃ a b, expression = a ++ w ++ b ∧
    st.wordStartIndex = a.length ∧ a.length + w.length = i
  nil : ¬st.preType.isWord → w = []

variable {expression rest w : Chars} {st : Reading} {i : ℕ} {ch : UInt16} {t : CharType}

lemma InWord.word_eq (h : InWord expression i st w) (hw : st.preType.isWord) :
    word expression st = .ok w := by
  obtain ⟨-, a, b, rfl, hstart, -⟩ := h.start hw
  rw [word, substring, hstart, h.wordLen, if_neg (by omega),
    if_neg (by simp only [List.length_append, Nat.cast_add]; omega), if_neg (by omega)]
  simp

/-- The end of a word adds its token. -/
lemma InWord.flush_eq (h : InWord expression i st w) :
    (if st.preType = .OPERATOR then addOperator expression st
      else if st.preType = .OPERAND then addOperand expression st
      else .ok st) =
    (flush st.preType w).map fun ts => { st with segments := st.segments ++ ts } := by
  rw [flush]
  by_cases h1 : st.preType = .OPERATOR
  · rw [if_pos h1, if_pos h1, addOperator, h.word_eq (by rw [h1]; rfl)]
    cases hop : createOperator w <;> simp [Except.bind, Except.map, hop]
  · rw [if_neg h1, if_neg h1]
    by_cases h2 : st.preType = .OPERAND
    · rw [if_pos h2, if_pos h2, addOperand, h.word_eq (by rw [h2]; rfl)]
      rfl
    · rw [if_neg h2, if_neg h2]
      simp [Except.map]

/-- What a character does that does not go on with the word. -/
def started (i : ℕ) (ch : UInt16) (t : CharType) (st : Reading) (ts : List Op) : Reading where
  segments := st.segments ++ ts ++ parenthesis t ch
  wordStartIndex := if t.isWord then i else if st.preType.isWord then -1 else st.wordStartIndex
  wordLen := if t.isWord then 1 else 0
  preType := t

lemma endWord_eq (h : InWord expression i st w) :
    endWord expression st = (flush st.preType w).map fun ts =>
      { st with
        segments := st.segments ++ ts
        wordStartIndex := if st.preType.isWord then -1 else st.wordStartIndex
        wordLen := 0 } := by
  have hflush := h.flush_eq
  rw [endWord]
  by_cases h1 : st.preType = .OPERATOR
  · rw [if_pos h1] at hflush ⊢
    rw [hflush, h1]
    cases flush CharType.OPERATOR w <;> rfl
  · rw [if_neg h1] at hflush ⊢
    by_cases h2 : st.preType = .OPERAND
    · rw [if_pos h2] at hflush ⊢
      rw [hflush, h2]
      cases flush CharType.OPERAND w <;> rfl
    · have hw : ¬st.preType.isWord := by simp [CharType.isWord, h1, h2]
      have hlen := h.wordLen
      rw [h.nil hw, List.length_nil] at hlen
      rw [if_neg h2, flush, if_neg h1, if_neg h2, if_neg hw, ← hlen]
      simp only [Except.map, List.append_nil]

lemma readChar_operand (h : InWord expression i st w) (hch : isOperandChar ch = true) :
    readChar expression i ch st =
      if st.preType = .OPERAND then .ok { st with wordLen := st.wordLen + 1 }
      else (flush st.preType w).map (started i ch .OPERAND st) := by
  have hflush := h.flush_eq
  rw [readChar, if_pos hch]
  obtain ⟨segments, start, len, pre⟩ := st
  cases pre with
  | OPERAND => rfl
  | OPERATOR =>
    simp only [reduceCtorEq, if_true, if_false, true_or] at hflush ⊢
    rw [hflush]
    cases flush CharType.OPERATOR w with
    | error e => rfl
    | ok ts => simp [Except.map, started, CharType.isWord, parenthesis]
  | _ => simp [flush, Except.map, started, CharType.isWord, parenthesis]

lemma readChar_operator (h : InWord expression i st w) (hlead : st.preType ≠ .NULL)
    (h1 : isOperandChar ch = false) (h2 : isParenthesisChar ch = false)
    (hch : isOperatorChar ch = true) :
    readChar expression i ch st =
      if st.preType = .OPERATOR then .ok { st with wordLen := st.wordLen + 1 }
      else (flush st.preType w).map (started i ch .OPERATOR st) := by
  have hflush := h.flush_eq
  rw [readChar, h1, h2, hch]
  obtain ⟨segments, start, len, pre⟩ := st
  cases pre with
  | NULL => exact absurd rfl hlead
  | OPERATOR => rfl
  | OPERAND =>
    simp only [reduceCtorEq, if_true, if_false, true_or] at hflush ⊢
    rw [hflush]
    cases flush CharType.OPERAND w with
    | error e => rfl
    | ok ts => simp [Except.map, started, CharType.isWord, parenthesis]
  | _ => simp [flush, Except.map, started, CharType.isWord, parenthesis]

lemma createOperator_parenthesis (hch : isParenthesisChar ch = true) :
    createOperator [ch] = .ok (if ch = 40 then LEFTPARENTHESIS else RIGHTPARENTHESIS) := by
  rw [isParenthesisChar, Bool.or_eq_true, beq_iff_eq, beq_iff_eq] at hch
  rcases hch with rfl | rfl <;> rfl

/-- One character, unless it is one of an operator at the begin of the string. -/
lemma readChar_eq (h : InWord expression i st w)
    (hlead : st.preType = .NULL → isOperatorChar ch = false) :
    readChar expression i ch st =
      match charType ch with
      | none => .error (.illegalArgumentException (.illegalExpression i ch))
      | some t =>
        if t = st.preType ∧ t.isWord then .ok { st with wordLen := st.wordLen + 1 }
        else (flush st.preType w).map (started i ch t st) := by
  rw [charType]
  cases h1 : isOperandChar ch with
  | true =>
    rw [readChar_operand h h1]
    simp [CharType.isWord, eq_comm]
  | false =>
    cases h2 : isParenthesisChar ch with
    | true =>
      rw [readChar, h1, h2, endWord_eq h, createOperator_parenthesis h2]
      cases flush st.preType w <;>
        simp [Except.map, Except.bind, started, CharType.isWord, parenthesis]
    | false =>
      cases h3 : isOperatorChar ch with
      | true =>
        rw [readChar_operator h (fun hnull => by simp [hlead hnull] at h3) h1 h2 h3]
        simp [CharType.isWord, eq_comm]
      | false =>
        cases h4 : isSeparatorChar ch with
        | true =>
          rw [readChar, h1, h2, h3, h4, endWord_eq h]
          cases flush st.preType w <;>
            simp [Except.map, started, CharType.isWord, parenthesis]
        | false =>
          rw [readChar, h1, h2, h3, h4]
          rfl

/-- The reading goes on with its word. -/
lemma InWord.extend (h : InWord expression i st w) (hword : st.preType.isWord)
    (hexpr : expression.drop i = ch :: rest) :
    InWord expression (i + 1) { st with wordLen := st.wordLen + 1 } (w ++ [ch]) where
  wordLen := by simp [h.wordLen]
  start _ := by
    obtain ⟨-, a, b, rfl, hstart, hlen⟩ := h.start hword
    have hb : b = ch :: rest := by
      rw [← hexpr, ← hlen, ← List.length_append, List.drop_left]
    exact ⟨by simp, a, rest, by simp [hb], hstart, by simp; omega⟩
  nil hn := absurd hword hn

/-- The reading is in the word that a character begins, or in none. -/
lemma InWord.started (hexpr : expression.drop i = ch :: rest) (hi : i ≤ expression.length)
    (ts : List Op) : InWord expression (i + 1) (started i ch t st ts) (beginWord t ch) := by
  refine ⟨?_, fun hword => ?_, fun hword => ?_⟩
  · rw [PolishExpr.started, beginWord]
    simp only
    split <;> rfl
  · have hword' : t.isWord = true := hword
    rw [PolishExpr.started, beginWord, if_pos hword']
    refine ⟨by simp, expression.take i, rest, ?_, by simp [hi, hword'], by simp [hi]⟩
    rw [List.append_assoc, List.singleton_append, ← hexpr, List.take_append_drop]
  · exact if_neg hword

lemma finish_eq (h : InWord expression i st w) :
    finish expression st = .ok (st.segments ++ if w = [] then [] else [operand w]) := by
  rw [finish, h.wordLen]
  by_cases hw : w = []
  · simp [hw]
  · have hword : st.preType.isWord = true := by
      by_contra hn
      exact hw (h.nil hn)
    rw [if_pos (List.length_pos_iff.mpr hw), if_neg hw, addOperand, h.word_eq hword]
    rfl

/-- The tokenizer is the scanner, but for an operator at the begin of the string. -/
lemma readFrom_eq (h : InWord expression i st w) (hexpr : expression.drop i = rest)
    (hi : i ≤ expression.length)
    (hlead : st.preType = .NULL → ∀ ch ∈ rest.head?, isOperatorChar ch = false) :
    (readFrom expression i rest st).bind (finish expression) =
      (lex i st.preType w rest).map (st.segments ++ ·) := by
  induction rest generalizing i st w with
  | nil =>
    rw [readFrom, lex]
    exact finish_eq h
  | cons ch rest ih =>
    have hexpr' : expression.drop (i + 1) = rest := by
      rw [← List.drop_drop, hexpr, List.drop_one, List.tail_cons]
    have hi' : i + 1 ≤ expression.length := by
      have hlen := congrArg List.length hexpr
      rw [List.length_drop, List.length_cons] at hlen
      omega
    rw [readFrom, lex, readChar_eq h fun hnull => hlead hnull ch rfl]
    cases hch : charType ch with
    | none => rfl
    | some t =>
      have hnull : t ≠ .NULL := by
        rintro rfl
        rw [charType] at hch
        split_ifs at hch <;> cases hch
      simp only
      by_cases hgo : t = st.preType ∧ t.isWord
      · obtain ⟨rfl, hword⟩ := hgo
        rw [if_pos ⟨rfl, hword⟩, if_pos ⟨rfl, hword⟩]
        exact ih (h.extend hword hexpr) hexpr' hi' fun hn => absurd hn hnull
      · rw [if_neg hgo, if_neg hgo]
        cases flush st.preType w with
        | error e => rfl
        | ok ts =>
          have hin : InWord expression (i + 1) (started i ch t st ts) (beginWord t ch) :=
            InWord.started hexpr hi ts
          have hnext := ih hin hexpr' hi' fun hn => absurd hn hnull
          simp only [Except.map, Except.bind] at hnext ⊢
          rw [hnext]
          simp only [started]
          cases lex (i + 1) t (beginWord t ch) rest <;> simp

/-- The tokens of a string that does not begin with an operator. -/
theorem participle_eq (hlead : ∀ ch ∈ expression.head?, isOperatorChar ch = false) :
    participle expression = lex 0 .NULL [] expression := by
  have hstart : InWord expression 0 {} [] :=
    ⟨rfl, fun h => by simp [CharType.isWord] at h, fun _ => rfl⟩
  rw [participle, readFrom_eq hstart List.drop_zero (Nat.zero_le _) fun _ => hlead]
  cases lex 0 CharType.NULL [] expression <;> rfl

end CloudMQ.PolishExpr
