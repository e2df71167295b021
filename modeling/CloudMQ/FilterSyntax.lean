import CloudMQ.FilterExpr

/-!
Strings that are not filter expressions, and which of them are reported as such.

An illegal character, an operator other than `&&` and `||` and a parenthesis without its counterpart
are found. The last word of a string is not looked at, nor is the order of the tokens; and an
operator at the very begin makes the tokenizer fail in another way.
-/

namespace CloudMQ.FilterSyntax

open CloudMQ.PolishExpr
open CloudMQ.PolishExpr.Operator
open CloudMQ.FilterExpr
open CloudMQ.Postfix
open CloudMQ.Postfix.Token (operand operator)

/-- The string has an illegal character. -/
def illegal (s : Chars) : Bool := s.any fun ch => charType ch = none

/-- Some word of the characters of operators is neither `&&` nor `||`; but the one at the end of the
string does not count. The first argument is the part of the word that was already read. -/
def badOperator : Chars → Chars → Bool
  | _, [] => false
  | w, ch :: s =>
    if isOperatorChar ch then badOperator (w ++ [ch]) s
    else (w ≠ [] && w ≠ AND.symbol && w ≠ OR.symbol) || badOperator [] s

/-- The parentheses are closed, where so many are open before. -/
def balanced : ℕ → Chars → Bool
  | n, [] => n = 0
  | n, ch :: s =>
    if ch = 40 then balanced (n + 1) s
    else if ch = 41 then 0 < n && balanced (n - 1) s
    else balanced n s

/-- The first character that is not one of an operator is illegal. -/
def illegalAfterOperator (s : Chars) : Bool :=
  match s.dropWhile isOperatorChar with
  | [] => false
  | ch :: _ => charType ch = none

/-- The strings that are rejected. -/
def Rejected (s : Chars) : Prop :=
  if s.head?.any isOperatorChar then illegalAfterOperator s = true
  else illegal s = true ∨ badOperator [] s = true ∨ balanced 0 s = false

instance (s : Chars) : Decidable (Rejected s) := inferInstanceAs (Decidable (ite _ _ _))

/-- The string writes some expression. -/
def Grammatical (s : Chars) : Prop := ∃ e : Expr .disjunction, Writes e s

/-- An exception of the kind that reports a wrong expression. -/
def IsReport (e : Thrown) : Prop := ∃ m, e = .illegalArgumentException m

/-- What is asked of the conversion: what it returns is well formed, over operands that are words,
and only for expressions; all else is reported. -/
structure Reports (s : Chars) : Prop where
  wellFormed : ∀ segments, reversePolish s = .ok segments → WellFormed apply segments
  legal : ∀ segments, reversePolish s = .ok segments → ∀ t ∈ segments, Legal t
  grammatical : ∀ segments, reversePolish s = .ok segments → Grammatical s
  report : ∀ e, reversePolish s = .error e → IsReport e

/-! ### The scanner -/

variable {i : ℕ} {pre t : CharType} {w s : Chars} {ts : List Op} {ch : UInt16}

lemma charType_eq_operator : charType ch = some .OPERATOR ↔ isOperatorChar ch = true := by
  constructor
  · intro h
    by_contra hop
    rw [charType, if_neg hop] at h
    split_ifs at h <;> cases h
  · intro h
    rw [isOperatorChar, Bool.or_eq_true, beq_iff_eq, beq_iff_eq] at h
    rcases h with rfl | rfl <;> rfl

lemma charType_eq_parenthesis : charType ch = some .PARENTHESIS ↔ ch = 40 ∨ ch = 41 := by
  constructor
  · intro h
    have hpar : isParenthesisChar ch = true := by
      by_contra hpar
      rw [charType, if_neg hpar] at h
      split_ifs at h <;> cases h
    rw [isParenthesisChar, Bool.or_eq_true, beq_iff_eq, beq_iff_eq] at hpar
    exact hpar.imp Eq.symm Eq.symm
  · rintro (rfl | rfl) <;> rfl

/-- The word is one of an operator. -/
def OperatorWord (pre : CharType) (w : Chars) : Prop :=
  pre = .OPERATOR → w ≠ [] ∧ ∀ ch ∈ w, isOperatorChar ch = true

/-- The part of a word that counts as one of an operator. -/
def operatorWord (pre : CharType) (w : Chars) : Chars := if pre = .OPERATOR then w else []

lemma createOperator_eq (hw : w ≠ [] ∧ ∀ ch ∈ w, isOperatorChar ch = true) :
    createOperator w = if w = AND.symbol then .ok AND else if w = OR.symbol then .ok OR
      else .error (.illegalArgumentException (.unsupportOperator w)) := by
  have hl : LEFTPARENTHESIS.symbol ≠ w := by
    rintro rfl
    exact absurd (hw.2 40 List.mem_cons_self) (by decide)
  have hr : RIGHTPARENTHESIS.symbol ≠ w := by
    rintro rfl
    exact absurd (hw.2 41 List.mem_cons_self) (by decide)
  rw [createOperator, if_neg hl, if_neg hr]
  simp only [eq_comm]

/-- The end of a word: an operator that is not supported, or a token that is no parenthesis. -/
lemma flush_cases (hw : OperatorWord pre w) :
    (∃ m, flush pre w = .error (.illegalArgumentException m) ∧
      (operatorWord pre w ≠ [] ∧ operatorWord pre w ≠ AND.symbol ∧
        operatorWord pre w ≠ OR.symbol)) ∨
    (∃ ts, flush pre w = .ok ts ∧ (∀ t ∈ ts, kind t ≠ .PARENTHESIS) ∧
      (operatorWord pre w = [] ∨ operatorWord pre w = AND.symbol ∨
        operatorWord pre w = OR.symbol)) := by
  cases pre with
  | OPERATOR =>
    have hword := hw rfl
    have hflush : flush .OPERATOR w = (createOperator w).map fun op => [operator op] := rfl
    rw [hflush, createOperator_eq hword, operatorWord, if_pos rfl]
    by_cases h1 : w = AND.symbol
    · rw [if_pos h1]
      exact .inr ⟨_, rfl, by simp [kind], .inr (.inl h1)⟩
    · rw [if_neg h1]
      by_cases h2 : w = OR.symbol
      · rw [if_pos h2]
        exact .inr ⟨_, rfl, by simp [kind], .inr (.inr h2)⟩
      · rw [if_neg h2]
        exact .inl ⟨_, rfl, hword.1, h1, h2⟩
  | OPERAND => exact .inr ⟨_, rfl, by simp [kind], .inl rfl⟩
  | _ => exact .inr ⟨_, rfl, by simp, .inl rfl⟩

/-- The parentheses among the tokens. -/
def balancedTokens : ℕ → List Op → Bool
  | n, [] => n = 0
  | n, operator LEFTPARENTHESIS :: ts => balancedTokens (n + 1) ts
  | n, operator RIGHTPARENTHESIS :: ts => 0 < n && balancedTokens (n - 1) ts
  | n, _ :: ts => balancedTokens n ts

lemma balancedTokens_append {us : List Op} (hts : ∀ t ∈ ts, kind t ≠ .PARENTHESIS) (n : ℕ) :
    balancedTokens n (ts ++ us) = balancedTokens n us := by
  induction ts with
  | nil => rfl
  | cons t ts ih =>
    have ht := hts t List.mem_cons_self
    rw [← ih fun t ht => hts t (List.mem_cons_of_mem _ ht)]
    cases t with
    | operand w => rfl
    | operator op => cases op <;> first | rfl | exact absurd rfl ht

/-- The token of a parenthesis counts as the character does. -/
lemma balancedTokens_parenthesis (hch : charType ch = some t) (n : ℕ) (us : List Op) (hus : ∀ n,
    balancedTokens n us = balanced n s) :
    balancedTokens n (parenthesis t ch ++ us) = balanced n (ch :: s) := by
  by_cases ht : t = .PARENTHESIS
  · rw [ht] at hch ⊢
    rcases charType_eq_parenthesis.mp hch with rfl | rfl
    · exact hus (n + 1)
    · exact congrArg _ (hus (n - 1))
  · have hpar : ¬(ch = 40 ∨ ch = 41) := fun h =>
      ht (Option.some.inj (hch.symm.trans (charType_eq_parenthesis.mpr h)))
    rw [not_or] at hpar
    rw [parenthesis, if_neg ht, balanced, if_neg hpar.1, if_neg hpar.2]
    exact hus n

/-- A character that begins a word, or none. -/
lemma badOperator_cons (hch : charType ch = some t) (hgo : ¬(t = pre ∧ t.isWord = true)) :
    badOperator (operatorWord pre w) (ch :: s) =
      ((operatorWord pre w ≠ [] && operatorWord pre w ≠ AND.symbol &&
        operatorWord pre w ≠ OR.symbol) || badOperator (operatorWord t (beginWord t ch)) s) := by
  by_cases ht : t = .OPERATOR
  · subst ht
    have hpre : pre ≠ .OPERATOR := fun h => hgo ⟨h.symm, rfl⟩
    rw [badOperator, if_pos (charType_eq_operator.mp hch), operatorWord, if_neg hpre]
    rfl
  · have hop : ¬isOperatorChar ch = true := fun h =>
      ht (Option.some.inj (hch.symm.trans (charType_eq_operator.mpr h)))
    rw [badOperator, if_neg hop, operatorWord.eq_def t, if_neg ht]

/-- What the scanner makes of the rest of a string: it reports an illegal character or an operator
that is not supported, or it finds the parentheses of the string. -/
lemma lex_spec (hw : OperatorWord pre w) :
    (∃ m, lex i pre w s = .error (.illegalArgumentException m) ∧
      (illegal s = true ∨ badOperator (operatorWord pre w) s = true)) ∨
    (∃ ts, lex i pre w s = .ok ts ∧ illegal s = false ∧
      badOperator (operatorWord pre w) s = false ∧ ∀ n, balancedTokens n ts = balanced n s) := by
  induction s generalizing i pre w with
  | nil =>
    right
    rw [lex]
    refine ⟨_, rfl, rfl, rfl, fun n => ?_⟩
    split <;> rfl
  | cons ch s ih =>
    rw [lex]
    cases hch : charType ch with
    | none =>
      left
      exact ⟨_, rfl, .inl (by simp [illegal, hch])⟩
    | some t =>
      have hill : illegal (ch :: s) = illegal s := by simp [illegal, hch]
      simp only [hill]
      by_cases hgo : t = pre ∧ t.isWord = true
      · rw [if_pos hgo]
        obtain ⟨rfl, hword⟩ := hgo
        have hpar : ¬(ch = 40 ∨ ch = 41) := fun h => by
          rw [charType_eq_parenthesis.mpr h, Option.some.injEq] at hch
          rw [← hch] at hword
          cases hword
        rw [not_or] at hpar
        have hbad : badOperator (operatorWord t w) (ch :: s) =
            badOperator (operatorWord t (w ++ [ch])) s := by
          by_cases ht : t = .OPERATOR
          · subst ht
            exact if_pos (charType_eq_operator.mp hch)
          · have hop : ¬isOperatorChar ch = true := fun h =>
              ht (Option.some.inj (hch.symm.trans (charType_eq_operator.mpr h)))
            rw [operatorWord, operatorWord, if_neg ht, if_neg ht, badOperator, if_neg hop]
            rfl
        have hnext : OperatorWord t (w ++ [ch]) := by
          rintro rfl
          refine ⟨by simp, fun c hc => ?_⟩
          rcases List.mem_append.mp hc with h | h
          · exact (hw rfl).2 c h
          · rw [List.mem_singleton.mp h]
            exact charType_eq_operator.mp hch
        simp only [hbad, balanced, if_neg hpar.1, if_neg hpar.2]
        exact ih hnext
      · rw [if_neg hgo]
        have hnext : OperatorWord t (beginWord t ch) := by
          rintro rfl
          refine ⟨List.cons_ne_nil _ _, fun c hc => ?_⟩
          rw [List.mem_singleton.mp hc]
          exact charType_eq_operator.mp hch
        rw [badOperator_cons hch hgo]
        rcases flush_cases hw with ⟨m, hflush, hbad⟩ | ⟨ts, hflush, hts, hbad⟩
        · left
          exact ⟨m, by rw [hflush]; rfl, .inr (by simp [hbad])⟩
        · have hfalse : (operatorWord pre w ≠ [] && operatorWord pre w ≠ AND.symbol &&
              operatorWord pre w ≠ OR.symbol) = false := by
            rcases hbad with h | h | h <;> simp [h]
          rw [hflush, hfalse, Bool.false_or]
          rcases ih (i := i + 1) hnext with ⟨m, hlex, herr⟩ | ⟨us, hlex, h1, h2, h3⟩
          · left
            exact ⟨m, by rw [hlex]; rfl, herr⟩
          · right
            refine ⟨ts ++ parenthesis t ch ++ us, by rw [hlex]; rfl, h1, h2, fun n => ?_⟩
            rw [List.append_assoc, balancedTokens_append hts]
            exact balancedTokens_parenthesis hch n us h3

/-! ### The stack of operators -/

/-- How many parentheses are open. -/
def opened (stack : List Operator) : ℕ := stack.count LEFTPARENTHESIS

variable {stack stack' : List Operator} {segments segments' : List Op} {token : Op}

/-- A closing parenthesis takes one that is open, or there is none. -/
lemma unwind_cases (hr : RIGHTPARENTHESIS ∉ stack) :
    (unwind stack = none ∧ opened stack = 0) ∨
    (∃ popped rest, unwind stack = some (popped, rest) ∧ opened stack = opened rest + 1 ∧
      RIGHTPARENTHESIS ∉ rest) := by
  induction stack with
  | nil => exact .inl ⟨rfl, rfl⟩
  | cons op stack ih =>
    rw [List.mem_cons, not_or] at hr
    by_cases hop : op = LEFTPARENTHESIS
    · subst hop
      exact .inr ⟨[], stack, rfl, List.count_cons_self, hr.2⟩
    · have hcount : opened (op :: stack) = opened stack := List.count_cons_of_ne hop
      rw [unwind, if_neg hop, hcount]
      rcases ih hr.2 with ⟨hnone, h0⟩ | ⟨popped, rest, hsome, h1, h2⟩
      · exact .inl ⟨by rw [hnone]; rfl, h0⟩
      · exact .inr ⟨op :: popped, rest, by rw [hsome]; rfl, h1, h2⟩

/-- An operator leaves the parentheses on the stack alone. -/
lemma readToken_operator (op : Operator) (segments : List Op) (hop : op.isCompareable = true)
    (hr : RIGHTPARENTHESIS ∉ stack) :
    ∃ segments' stack', readToken (operator op) segments stack = .ok (segments', stack') ∧
      opened stack' = opened stack ∧ RIGHTPARENTHESIS ∉ stack' := by
  have hne : op ≠ LEFTPARENTHESIS ∧ op ≠ RIGHTPARENTHESIS := by
    cases op <;> simp [isCompareable] at hop <;> simp
  have hpush (l : List Operator) : opened (op :: l) = opened l := List.count_cons_of_ne hne.1
  have hmem {l : List Operator} (hl : RIGHTPARENTHESIS ∉ l) : RIGHTPARENTHESIS ∉ op :: l := by
    rw [List.mem_cons, not_or]
    exact ⟨hne.2.symm, hl⟩
  by_cases hpop : ∀ old ∈ stack.head?, old.isCompareable = true → op.compare old = 1
  · exact ⟨_, _, readToken_push hop hpop, hpush stack, hmem hr⟩
  · push Not at hpop
    obtain ⟨old, hold, hcomp, hle⟩ := hpop
    obtain ⟨rest, rfl⟩ : ∃ rest, stack = old :: rest := by
      cases stack with
      | nil => cases hold
      | cons o rest => exact ⟨rest, by rw [Option.some.inj hold]⟩
    rw [List.mem_cons, not_or] at hr
    have hold' : opened (old :: rest) = opened rest := by
      refine List.count_cons_of_ne fun h => ?_
      rw [h] at hcomp
      cases hcomp
    exact ⟨_, _, readToken_pop hop hcomp hle, by rw [hpush, hold'], hmem hr.2⟩

/-- The tokens fail on a parenthesis that is closed only; otherwise the stack tells whether some
are still open. -/
lemma readTokens_spec (ts segments : List Op) (hr : RIGHTPARENTHESIS ∉ stack) :
    (∃ e, readTokens ts segments stack = .error e ∧ IsReport e ∧
      balancedTokens (opened stack) ts = false) ∨
    (∃ segments' stack', readTokens ts segments stack = .ok (segments', stack') ∧
      RIGHTPARENTHESIS ∉ stack' ∧
      balancedTokens (opened stack) ts = decide (opened stack' = 0)) := by
  induction ts generalizing segments stack with
  | nil => exact .inr ⟨_, _, rfl, hr, rfl⟩
  | cons token ts ih =>
    cases token with
    | operand w => exact ih _ hr
    | operator op =>
      cases op with
      | LEFTPARENTHESIS =>
        have hl : RIGHTPARENTHESIS ∉ LEFTPARENTHESIS :: stack := by simp [hr]
        have hcount : opened (LEFTPARENTHESIS :: stack) = opened stack + 1 := List.count_cons_self
        rw [balancedTokens, ← hcount]
        exact ih _ hl
      | RIGHTPARENTHESIS =>
        rw [balancedTokens]
        rcases unwind_cases hr with ⟨hnone, h0⟩ | ⟨popped, rest, hsome, h1, h2⟩
        · have hread : readTokens (operator RIGHTPARENTHESIS :: ts) segments stack =
              .error (.illegalArgumentException (.mismatchedParentheses none)) := by
            rw [readTokens, readToken, hnone]
            rfl
          exact .inl ⟨_, hread, ⟨_, rfl⟩, by simp [h0]⟩
        · have hread : readToken (operator RIGHTPARENTHESIS) segments stack =
              .ok (segments ++ popped.map operator, rest) := by rw [readToken, hsome]
          rw [readTokens_cons hread, h1]
          simpa using ih _ h2
      | AND =>
        obtain ⟨segments', stack', hread, hcount, hr'⟩ := readToken_operator AND segments rfl hr
        rw [readTokens_cons hread, balancedTokens, ← hcount]
        · exact ih _ hr'
        all_goals simp
      | OR =>
        obtain ⟨segments', stack', hread, hcount, hr'⟩ := readToken_operator OR segments rfl hr
        rw [readTokens_cons hread, balancedTokens, ← hcount]
        · exact ih _ hr'
        all_goals simp

/-- What is left on the stack is reported when a parenthesis is open. -/
lemma popAll_spec (segments : List Op) (hr : RIGHTPARENTHESIS ∉ stack) :
    (∃ e, popAll stack segments = .error e ∧ IsReport e ∧ opened stack ≠ 0) ∨
    (popAll stack segments = .ok (segments ++ stack.map operator) ∧ opened stack = 0) := by
  by_cases hl : LEFTPARENTHESIS ∈ stack
  · left
    have hcount : opened stack ≠ 0 := (List.count_pos_iff.mpr hl).ne'
    obtain ⟨e, he, hreport⟩ : ∃ e, popAll stack segments = .error e ∧ IsReport e := by
      clear hcount
      induction stack generalizing segments with
      | nil => cases hl
      | cons op stack ih =>
        rw [List.mem_cons, not_or] at hr
        rw [popAll]
        by_cases hop : LEFTPARENTHESIS = op
        · rw [if_pos (.inl hop)]
          exact ⟨_, rfl, _, rfl⟩
        · rw [if_neg (not_or.mpr ⟨hop, hr.1⟩)]
          exact ih _ hr.2 ((List.mem_cons.mp hl).resolve_left hop)
    exact ⟨e, he, hreport, hcount⟩
  · exact .inr ⟨popAll_eq hl hr segments, List.count_eq_zero.mpr hl⟩

/-- The conversion of tokens fails exactly when their parentheses do not match. -/
lemma reversePolishTokens_spec (ts : List Op) :
    (∃ e, reversePolishTokens ts = .error e ∧ IsReport e ∧ balancedTokens 0 ts = false) ∨
    (∃ segments, reversePolishTokens ts = .ok segments ∧ balancedTokens 0 ts = true) := by
  rw [reversePolishTokens]
  have hstart : RIGHTPARENTHESIS ∉ ([] : List Operator) := List.not_mem_nil
  rcases readTokens_spec ts [] hstart with
    ⟨e, he, hreport, hbal⟩ | ⟨segments, stack, hread, hr, hbal⟩
  · exact .inl ⟨e, by rw [he]; rfl, hreport, hbal⟩
  · rw [hread]
    rcases popAll_spec segments hr with ⟨e, he, hreport, hne⟩ | ⟨hpop, h0⟩
    · exact .inl ⟨e, he, hreport, hbal.trans (decide_eq_false hne)⟩
    · exact .inr ⟨_, hpop, hbal.trans (decide_eq_true h0)⟩

/-! ### An operator at the begin -/

variable {expression rest : Chars} {st : Reading}

/-- The tokenizer in an operator that it has no start for. -/
structure Headless (st : Reading) : Prop where
  preType : st.preType = .OPERATOR
  start : st.wordStartIndex = -1
  wordLen : 0 < st.wordLen

lemma Headless.word (h : Headless st) :
    word expression st = .error (.stringIndexOutOfBoundsException (-1)) := by
  rw [PolishExpr.word, substring, h.start, if_pos (by omega)]

lemma Headless.addOperator (h : Headless st) :
    addOperator expression st = .error (.stringIndexOutOfBoundsException (-1)) := by
  rw [PolishExpr.addOperator, h.word]
  rfl

/-- The first character after it fails in one of two ways. -/
lemma Headless.readChar_error (h : Headless st) (hch : isOperatorChar ch = false) :
    readChar expression i ch st = .error (if charType ch = none then
      .illegalArgumentException (.illegalExpression i ch)
      else .stringIndexOutOfBoundsException (-1)) := by
  have hend : endWord expression st = .error (.stringIndexOutOfBoundsException (-1)) := by
    rw [endWord, if_pos h.preType, h.addOperator]
    rfl
  rw [readChar, charType, hch]
  cases isOperandChar ch with
  | true =>
    simp only [if_true, h.preType, h.addOperator, true_or]
    rfl
  | false =>
    cases isParenthesisChar ch with
    | true =>
      rw [hend]
      rfl
    | false =>
      cases isSeparatorChar ch with
      | true =>
        rw [hend]
        rfl
      | false => rfl

lemma Headless.readFrom_error (h : Headless st) :
    ∃ e, (readFrom expression i rest st).bind (finish expression) = .error e ∧
      (IsReport e ↔ illegalAfterOperator rest = true) := by
  have hnot (j : ℤ) : ¬IsReport (.stringIndexOutOfBoundsException j) := fun ⟨m, h⟩ => by cases h
  induction rest generalizing i st with
  | nil =>
    have hfinish : finish expression st = .error (.stringIndexOutOfBoundsException (-1)) := by
      rw [finish, if_pos h.wordLen, addOperand, h.word]
      rfl
    exact ⟨_, hfinish, iff_of_false (hnot _) (by simp [illegalAfterOperator])⟩
  | cons ch rest ih =>
    rw [readFrom]
    cases hch : isOperatorChar ch with
    | true =>
      have hgo : readChar expression i ch st =
          .ok { st with preType := .OPERATOR, wordLen := st.wordLen + 1 } := by
        rw [isOperatorChar, Bool.or_eq_true, beq_iff_eq, beq_iff_eq] at hch
        rcases hch with rfl | rfl <;> simp only [readChar, h.preType] <;> rfl
      have hafter : illegalAfterOperator (ch :: rest) = illegalAfterOperator rest := by
        rw [illegalAfterOperator, List.dropWhile_cons_of_pos hch, ← illegalAfterOperator]
      rw [hgo, hafter]
      exact ih ⟨rfl, h.start, Nat.succ_pos _⟩
    | false =>
      rw [h.readChar_error hch]
      refine ⟨_, rfl, ?_⟩
      rw [illegalAfterOperator, List.dropWhile_cons_of_neg (by simp [hch])]
      simp only [decide_eq_true_eq]
      by_cases hnone : charType ch = none
      · rw [if_pos hnone]
        exact iff_of_true ⟨_, rfl⟩ hnone
      · rw [if_neg hnone]
        exact iff_of_false (hnot _) hnone

/-! ### The conversion -/

/-- Exactly the rejected strings are reported. -/
lemma report_iff (s : Chars) :
    (∃ e, reversePolish s = .error e ∧ IsReport e) ↔ Rejected s := by
  rw [Rejected]
  cases hhead : s.head?.any isOperatorChar with
  | true =>
    rw [if_pos rfl]
    cases s with
    | nil => cases hhead
    | cons ch s =>
      have hch : isOperatorChar ch = true := hhead
      have hfirst : readChar (ch :: s) 0 ch {} =
          .ok { preType := .OPERATOR, wordLen := 1 } := by
        rw [isOperatorChar, Bool.or_eq_true, beq_iff_eq, beq_iff_eq] at hch
        rcases hch with rfl | rfl <;> rfl
      have hheadless : Headless { preType := .OPERATOR, wordLen := 1 } :=
        ⟨rfl, rfl, Nat.one_pos⟩
      obtain ⟨e, he, hreport⟩ := @Headless.readFrom_error 1 (ch :: s) s _ hheadless
      have hafter : illegalAfterOperator (ch :: s) = illegalAfterOperator s := by
        rw [illegalAfterOperator, List.dropWhile_cons_of_pos hch, ← illegalAfterOperator]
      have hpart : reversePolish (ch :: s) = .error e := by
        rw [reversePolish, participle, readFrom, hfirst]
        exact congrArg (fun x : Except Thrown (List Op) => x.bind reversePolishTokens) he
      rw [hpart, hafter, ← hreport]
      constructor
      · rintro ⟨e', he', h⟩
        exact Except.error.inj he' ▸ h
      · exact fun h => ⟨e, rfl, h⟩
  | false =>
    have hlead : ∀ ch ∈ s.head?, isOperatorChar ch = false := by
      intro ch hch
      rw [Option.mem_def.mp hch] at hhead
      exact hhead
    have hword : OperatorWord .NULL [] := fun h => by cases h
    rw [if_neg (by simp), reversePolish, participle_eq hlead]
    rcases lex_spec (i := 0) (s := s) hword with ⟨m, hlex, hbad⟩ | ⟨ts, hlex, h1, h2, h3⟩
    · rw [hlex]
      exact iff_of_true ⟨_, rfl, m, rfl⟩ (hbad.imp_right .inl)
    · have hno : badOperator [] s = false := h2
      rw [hlex, h1, hno, ← h3]
      simp only [Except.bind, Bool.false_eq_true, false_or]
      rcases reversePolishTokens_spec ts with ⟨e, he, hreport, hbal⟩ | ⟨segments, hok, hbal⟩
      · exact iff_of_true ⟨e, he, hreport⟩ hbal
      · refine iff_of_false ?_ (by simp [hbal])
        rintro ⟨e, he, -⟩
        rw [hok] at he
        cases he

/-- A step adds the token or operators. -/
lemma readToken_legal (htoken : Legal token) (hsegs : ∀ t ∈ segments, Legal t)
    (h : readToken token segments stack = .ok (segments', stack')) :
    ∀ t ∈ segments', Legal t := by
  have hadd {l : List Op} (hl : ∀ t ∈ l, Legal t) : ∀ t ∈ segments ++ l, Legal t := by
    intro t ht
    rcases List.mem_append.mp ht with h | h
    · exact hsegs t h
    · exact hl t h
  have hops (ops : List Operator) : ∀ t ∈ ops.map operator, Legal t := by
    intro t ht
    obtain ⟨op, -, rfl⟩ := List.mem_map.mp ht
    exact legal_operator op
  rw [readToken.eq_def] at h
  split at h
  · simp only [Except.ok.injEq, Prod.mk.injEq] at h
    rw [← h.1]
    refine hadd fun t ht => ?_
    rw [List.mem_singleton.mp ht]
    exact htoken
  · simp only [Except.ok.injEq, Prod.mk.injEq] at h
    rw [← h.1]
    exact hsegs
  · split at h
    · simp only [Except.ok.injEq, Prod.mk.injEq] at h
      rw [← h.1]
      exact hadd (hops _)
    · cases h
  · split at h
    · simp only [Except.ok.injEq, Prod.mk.injEq] at h
      rw [← h.1]
      exact hsegs
    · split_ifs at h
      · simp only [Except.ok.injEq, Prod.mk.injEq] at h
        rw [← h.1]
        exact hadd (hops [_])
      · simp only [Except.ok.injEq, Prod.mk.injEq] at h
        rw [← h.1]
        exact hsegs

lemma readTokens_legal (hts : ∀ t ∈ ts, Legal t) (hsegs : ∀ t ∈ segments, Legal t)
    (h : readTokens ts segments stack = .ok (segments', stack')) :
    ∀ t ∈ segments', Legal t := by
  induction ts generalizing segments stack with
  | nil =>
    rw [readTokens, Except.ok.injEq, Prod.mk.injEq] at h
    exact h.1 ▸ hsegs
  | cons token ts ih =>
    rw [readTokens] at h
    cases hread : readToken token segments stack with
    | error e =>
      rw [hread] at h
      cases h
    | ok r =>
      rw [hread] at h
      exact ih (fun t ht => hts t (List.mem_cons_of_mem _ ht))
        (readToken_legal (hts token List.mem_cons_self) hsegs hread) h

lemma popAll_legal (hsegs : ∀ t ∈ segments, Legal t) (h : popAll stack segments = .ok segments') :
    ∀ t ∈ segments', Legal t := by
  induction stack generalizing segments with
  | nil => exact Except.ok.inj h ▸ hsegs
  | cons op stack ih =>
    rw [popAll] at h
    split at h
    · cases h
    · refine ih (fun t ht => ?_) h
      rcases List.mem_append.mp ht with h | h
      · exact hsegs t h
      · rw [List.mem_singleton.mp h]
        exact legal_operator op

lemma reversePolishTokens_legal (hts : ∀ t ∈ ts, Legal t)
    (h : reversePolishTokens ts = .ok segments) : ∀ t ∈ segments, Legal t := by
  rw [reversePolishTokens] at h
  cases hread : readTokens ts [] [] with
  | error e =>
    rw [hread] at h
    cases h
  | ok r =>
    rw [hread] at h
    exact popAll_legal (readTokens_legal hts (fun t ht => by cases ht) hread) h

/-- **Reports.** The conversion returns well-formed expressions only and reports all else, exactly
on the strings that write an expression and on those that are rejected. -/
theorem reports_iff (s : Chars) : Reports s ↔ Grammatical s ∨ Rejected s := by
  rw [← report_iff]
  constructor
  · intro h
    cases hs : reversePolish s with
    | ok segments => exact .inl (h.grammatical segments hs)
    | error e => exact .inr ⟨e, rfl, h.report e hs⟩
  · rintro (⟨e, he⟩ | ⟨e, he, hreport⟩)
    · obtain ⟨segments, hok, hvalue⟩ := reversePolish_writes e he
      have honly {segments' : List Op} (h : reversePolish s = .ok segments') :
          segments' = segments := Except.ok.inj (h.symm.trans hok)
      refine ⟨fun segments' h => ?_, fun segments' h => ?_, fun _ _ => ⟨e, he⟩, fun e' h => ?_⟩
      · rw [honly h]
        exact fun assignment => ⟨e.value assignment, hvalue assignment⟩
      · rw [reversePolish, participle_writes he] at h
        exact reversePolishTokens_legal (neat_tokens e).legal h
      · rw [hok] at h
        cases h
    · refine ⟨fun _ h => ?_, fun _ h => ?_, fun _ h => ?_, fun e' h => ?_⟩
      · rw [he] at h
        cases h
      · rw [he] at h
        cases h
      · rw [he] at h
        cases h
      · rw [he] at h
        exact Except.error.inj h ▸ hreport

/-- Two operands without an operator between them are not reported. -/
theorem not_reports_missing_operator : ¬∀ s : Chars, Reports s := by
  intro h
  obtain ⟨v, hv⟩ := (h (chars "a b")).wellFormed [operand (chars "a"), operand (chars "b")] rfl
    fun _ => true
  cases hv

end CloudMQ.FilterSyntax
