import CloudMQ.PolishExpr

/-!
Filter expressions that are well formed: what they mean, how they are written, and that their
postfix form means the same.

The stack of operators never holds more than one `&&`, and that one on top; below it are as many
`||` as the values that wait for them. That is why it is enough to pop one operator at a time.
-/

namespace CloudMQ.FilterExpr

open CloudMQ.PolishExpr
open CloudMQ.PolishExpr.Operator
open CloudMQ.Postfix
open CloudMQ.Postfix.Token (operand operator)

/-! ### Expressions -/

/-- A word of letters, digits and `_`. -/
def Word : Type := {w : Chars // w ≠ [] ∧ ∀ ch ∈ w, isOperandChar ch = true}

inductive Level
  | factor
  | conjunction
  | disjunction

/-- An expression; `&&` binds tighter than `||`. -/
inductive Expr : Level → Type
  | operand (w : Word) : Expr .factor
  | parentheses (e : Expr .disjunction) : Expr .factor
  | factor (e : Expr .factor) : Expr .conjunction
  | and (l : Expr .conjunction) (r : Expr .factor) : Expr .conjunction
  | conjunction (e : Expr .conjunction) : Expr .disjunction
  | or (l : Expr .disjunction) (r : Expr .conjunction) : Expr .disjunction

def Expr.value (assignment : Chars → Bool) : {level : Level} → Expr level → Bool
  | _, .operand w => assignment w.1
  | _, .parentheses e => e.value assignment
  | _, .factor e => e.value assignment
  | _, .and l r => l.value assignment && r.value assignment
  | _, .conjunction e => e.value assignment
  | _, .or l r => l.value assignment || r.value assignment

def Expr.tokens : {level : Level} → Expr level → List Op
  | _, .operand w => [Token.operand w.1]
  | _, .parentheses e => operator LEFTPARENTHESIS :: (e.tokens ++ [operator RIGHTPARENTHESIS])
  | _, .factor e => e.tokens
  | _, .and l r => l.tokens ++ operator AND :: r.tokens
  | _, .conjunction e => e.tokens
  | _, .or l r => l.tokens ++ operator OR :: r.tokens

/-- What an operator does with two values; a parenthesis is not an operator. -/
def apply : Operator → Option (Bool → Bool → Bool)
  | AND => some and
  | OR => some or
  | _ => none

/-! ### The stack of operators -/

/-- One operator is popped at most. -/
lemma readToken_pop {opNew opOld : Operator} {segments : List Op} {stack : List Operator}
    (hnew : opNew.isCompareable = true) (hold : opOld.isCompareable = true)
    (hle : opNew.compare opOld ≠ 1) :
    readToken (operator opNew) segments (opOld :: stack) =
      .ok (segments ++ [operator opOld], opNew :: stack) := by
  cases opNew <;> simp [isCompareable] at hnew <;> simp [readToken, hold, hle]

lemma readToken_push {opNew : Operator} {segments : List Op} {stack : List Operator}
    (hnew : opNew.isCompareable = true)
    (h : ∀ op ∈ stack.head?, op.isCompareable = true → opNew.compare op = 1) :
    readToken (operator opNew) segments stack = .ok (segments, opNew :: stack) := by
  cases stack with
  | nil => cases opNew <;> simp [isCompareable] at hnew <;> rfl
  | cons op stack =>
    have hop := h op rfl
    cases opNew <;> simp [isCompareable] at hnew <;> simpa [readToken] using hop

lemma readTokens_cons {token : Op} {tokens segments segments' : List Op}
    {stack stack' : List Operator}
    (h : readToken token segments stack = .ok (segments', stack')) :
    readTokens (token :: tokens) segments stack = readTokens tokens segments' stack' := by
  rw [readTokens, h]
  rfl

/-- Evaluated by a stack. -/
def eval (assignment : Chars → Bool) : List Op → List Bool → Option (List Bool) :=
  evaluate assignment apply

/-- A factor adds its value, and leaves the stack of operators. -/
def ReadsFactor (e : Expr .factor) : Prop :=
  ∃ r : List Op,
    (∀ segments stack rest, readTokens (e.tokens ++ rest) segments stack =
      readTokens rest (segments ++ r) stack) ∧
    ∀ assignment vs, eval assignment r vs = some (e.value assignment :: vs)

/-- A conjunction may leave an `&&` on the stack, when there is none on top before. -/
def ReadsConjunction (e : Expr .conjunction) : Prop :=
  ∃ (r : List Op) (pending : List Operator), (pending = [] ∨ pending = [AND]) ∧
    (∀ segments stack rest, stack.head? ≠ some AND →
      readTokens (e.tokens ++ rest) segments stack =
        readTokens rest (segments ++ r) (pending ++ stack)) ∧
    ∀ assignment vs, eval assignment (r ++ pending.map operator) vs =
      some (e.value assignment :: vs)

/-- A disjunction leaves such an `&&`, and as many `||` as values that wait for them. -/
def ReadsDisjunction (e : Expr .disjunction) : Prop :=
  ∃ (r : List Op) (pending : List Operator) (k : ℕ), (pending = [] ∨ pending = [AND]) ∧
    (∀ segments stack rest, (∀ op ∈ stack.head?, op = LEFTPARENTHESIS) →
      readTokens (e.tokens ++ rest) segments stack =
        readTokens rest (segments ++ r) (pending ++ List.replicate k OR ++ stack)) ∧
    ∀ assignment, ∃ (c : Bool) (xs : List Bool), xs.length = k ∧
      e.value assignment = (c || xs.any id) ∧
      ∀ vs, eval assignment (r ++ pending.map operator) vs = some (c :: xs ++ vs)

/-- The specification of an expression. -/
def Reads : {level : Level} → Expr level → Prop
  | .factor, e => ReadsFactor e
  | .conjunction, e => ReadsConjunction e
  | .disjunction, e => ReadsDisjunction e

lemma eval_append (assignment : Chars → Bool) (r r' : List Op) (vs : List Bool) :
    eval assignment (r ++ r') vs = (eval assignment r vs).bind (eval assignment r') :=
  evaluate_append _ _ _

lemma eval_operand (assignment : Chars → Bool) (w : Chars) (vs : List Bool) :
    eval assignment [operand w] vs = some (assignment w :: vs) := rfl

lemma eval_and (assignment : Chars → Bool) (a b : Bool) (vs : List Bool) :
    eval assignment [operator AND] (b :: a :: vs) = some ((a && b) :: vs) := rfl

lemma eval_or (assignment : Chars → Bool) (a b : Bool) (vs : List Bool) :
    eval assignment [operator OR] (b :: a :: vs) = some ((a || b) :: vs) := rfl

/-- All the values that wait are taken by as many `||`. -/
lemma eval_replicate (assignment : Chars → Bool) (c : Bool) (xs vs : List Bool) :
    eval assignment ((List.replicate xs.length OR).map operator) (c :: xs ++ vs) =
      some ((c || xs.any id) :: vs) := by
  have hfold (xs : List Bool) (c : Bool) :
      xs.foldl (fun b a => or a b) c = (c || xs.any id) := by
    induction xs generalizing c with
    | nil => simp
    | cons x xs ih =>
      rw [List.foldl_cons, ih, List.any_cons, id, ← Bool.or_assoc, Bool.or_comm x c]
  have hor : apply OR = some or := rfl
  rw [List.map_replicate, eval, evaluate_replicate hor, hfold]

lemma readsFactor_operand (w : Word) : ReadsFactor (.operand w) :=
  ⟨[operand w.1], fun _ _ _ => rfl, fun _ _ => rfl⟩

lemma unwind_append {ops stack : List Operator} (h : LEFTPARENTHESIS ∉ ops) :
    unwind (ops ++ LEFTPARENTHESIS :: stack) = some (ops, stack) := by
  induction ops with
  | nil => rfl
  | cons op ops ih =>
    rw [List.mem_cons, not_or] at h
    rw [List.cons_append, unwind, if_neg (Ne.symm h.1), ih h.2]
    rfl

/-- What a disjunction leaves on the stack. -/
lemma not_mem_left {pending : List Operator} (k : ℕ) (h : pending = [] ∨ pending = [AND]) :
    LEFTPARENTHESIS ∉ pending ++ List.replicate k OR := by
  rcases h with rfl | rfl <;> simp [List.mem_replicate]

lemma eval_left {pending : List Operator} {r : List Op} {assignment : Chars → Bool} {c : Bool}
    {xs : List Bool} {vs : List Bool}
    (h : eval assignment (r ++ pending.map operator) vs = some (c :: xs ++ vs)) :
    eval assignment (r ++ (pending ++ List.replicate xs.length OR).map operator) vs =
      some ((c || xs.any id) :: vs) := by
  rw [List.map_append, ← List.append_assoc, eval_append, h, Option.bind_some, eval_replicate]

lemma readsFactor_parentheses {e : Expr .disjunction} (h : ReadsDisjunction e) :
    ReadsFactor (.parentheses e) := by
  obtain ⟨r, pending, k, hpending, hread, heval⟩ := h
  refine ⟨r ++ (pending ++ List.replicate k OR).map operator, fun segments stack rest => ?_,
    fun assignment vs => ?_⟩
  · have hunwind := @unwind_append _ stack (not_mem_left k hpending)
    have hright : readToken (operator RIGHTPARENTHESIS) (segments ++ r)
        (pending ++ List.replicate k OR ++ LEFTPARENTHESIS :: stack) =
        .ok (segments ++ (r ++ (pending ++ List.replicate k OR).map operator), stack) := by
      rw [readToken, hunwind]
      simp only [List.append_assoc]
    have hleft : readToken (operator LEFTPARENTHESIS) segments stack =
        .ok (segments, LEFTPARENTHESIS :: stack) := rfl
    rw [Expr.tokens, List.cons_append, List.append_assoc, readTokens_cons hleft,
      hread _ _ _ (by simp), List.singleton_append, readTokens_cons hright]
  · obtain ⟨c, xs, rfl, hv, hvs⟩ := heval assignment
    rw [Expr.value, hv]
    exact eval_left (hvs vs)

lemma readsConjunction_factor {e : Expr .factor} (h : ReadsFactor e) :
    ReadsConjunction (.factor e) := by
  obtain ⟨r, hread, heval⟩ := h
  refine ⟨r, [], .inl rfl, fun segments stack rest _ => hread segments stack rest,
    fun assignment vs => ?_⟩
  rw [List.map_nil, List.append_nil]
  exact heval assignment vs

/-- Every `&&` pops the one before it. -/
lemma readsConjunction_and {l : Expr .conjunction} {f : Expr .factor} (hl : ReadsConjunction l)
    (hf : ReadsFactor f) : ReadsConjunction (.and l f) := by
  obtain ⟨r, pending, hpending, hread, heval⟩ := hl
  obtain ⟨r', hread', heval'⟩ := hf
  refine ⟨r ++ pending.map operator ++ r', [AND], .inr rfl, fun segments stack rest hstack => ?_,
    fun assignment vs => ?_⟩
  · have hand : readToken (operator AND) (segments ++ r) (pending ++ stack) =
        .ok (segments ++ r ++ pending.map operator, AND :: stack) := by
      rcases hpending with rfl | rfl
      · rw [List.nil_append, List.map_nil, List.append_nil]
        refine readToken_push rfl fun op hop hcomp => ?_
        cases op with
        | AND => exact absurd hop hstack
        | OR => rfl
        | LEFTPARENTHESIS => cases hcomp
        | RIGHTPARENTHESIS => cases hcomp
      · exact readToken_pop rfl rfl (by decide)
    rw [Expr.tokens, List.append_assoc, List.cons_append, hread _ _ _ hstack,
      readTokens_cons hand, hread']
    simp only [List.append_assoc, List.singleton_append]
  · rw [eval_append, eval_append, heval, Option.bind_some, heval', Option.bind_some]
    exact eval_and _ _ _ _

lemma readsDisjunction_conjunction {e : Expr .conjunction} (h : ReadsConjunction e) :
    ReadsDisjunction (.conjunction e) := by
  obtain ⟨r, pending, hpending, hread, heval⟩ := h
  refine ⟨r, pending, 0, hpending, fun segments stack rest hstack => ?_, fun assignment => ?_⟩
  · rw [List.replicate_zero, List.append_nil]
    refine hread _ _ _ fun h => ?_
    cases hstack AND h
  · exact ⟨e.value assignment, [], rfl, by simp [Expr.value], heval assignment⟩

/-- A `||` pops the `&&` on top; or else one `||`, in whose place it comes itself. -/
lemma readsDisjunction_or {l : Expr .disjunction} {c : Expr .conjunction}
    (hl : ReadsDisjunction l) (hc : ReadsConjunction c) : ReadsDisjunction (.or l c) := by
  obtain ⟨r, pending, k, hpending, hread, heval⟩ := hl
  obtain ⟨r', pending', hpending', hread', heval'⟩ := hc
  -- the operators that the `||` pops, and the number of those that wait after it
  obtain ⟨popped, k', hor, hpop⟩ : ∃ (popped : List Operator) (k' : ℕ),
      (∀ segments stack, (∀ op ∈ stack.head?, op = LEFTPARENTHESIS) →
        readToken (operator OR) segments (pending ++ List.replicate k OR ++ stack) =
          .ok (segments ++ popped.map operator, List.replicate k' OR ++ stack)) ∧
      ∀ assignment, ∃ xs : List Bool, xs.length = k' ∧ l.value assignment = xs.any id ∧
        ∀ vs, eval assignment (r ++ popped.map operator) vs = some (xs ++ vs) := by
    rcases hpending with rfl | rfl
    · cases k with
      | zero =>
        refine ⟨[], 1, fun segments stack hstack => ?_, fun assignment => ?_⟩
        · rw [List.map_nil, List.append_nil]
          refine readToken_push rfl fun op hop hcomp => ?_
          rw [hstack op hop] at hcomp
          cases hcomp
        · obtain ⟨c, xs, hlen, hv, hvs⟩ := heval assignment
          obtain rfl := List.length_eq_zero_iff.mp hlen
          exact ⟨[c], rfl, by simpa using hv, hvs⟩
      | succ k =>
        refine ⟨[OR], k + 1, fun segments stack _ => ?_, fun assignment => ?_⟩
        · exact readToken_pop rfl rfl (by decide)
        · obtain ⟨c, xs, hlen, hv, hvs⟩ := heval assignment
          obtain ⟨x, xs, rfl⟩ := List.exists_cons_of_length_eq_add_one hlen
          refine ⟨(x || c) :: xs, by simpa using hlen, ?_, fun vs => ?_⟩
          · rw [hv, List.any_cons, List.any_cons, id, id, ← Bool.or_assoc, Bool.or_comm c x]
          · have hr := hvs vs
            rw [List.map_nil, List.append_nil] at hr
            rw [eval_append, hr, Option.bind_some]
            exact eval_or _ _ _ _
    · refine ⟨[AND], k + 1, fun segments stack _ => ?_, fun assignment => ?_⟩
      · exact readToken_pop rfl rfl (by decide)
      · obtain ⟨c, xs, hlen, hv, hvs⟩ := heval assignment
        exact ⟨c :: xs, by rw [List.length_cons, hlen], by simpa using hv, hvs⟩
  refine ⟨r ++ popped.map operator ++ r', pending', k', hpending',
    fun segments stack rest hstack => ?_, fun assignment => ?_⟩
  · rw [Expr.tokens, List.append_assoc, List.cons_append, hread _ _ _ hstack,
      readTokens_cons (hor _ _ hstack), hread']
    · simp only [List.append_assoc]
    · cases k' with
      | zero =>
        intro h
        cases hstack AND h
      | succ k' => simp [List.replicate_succ]
  · obtain ⟨xs, hlen, hv, hvs⟩ := hpop assignment
    refine ⟨c.value assignment, xs, hlen, ?_, fun vs => ?_⟩
    · rw [Expr.value, hv, Bool.or_comm]
    · rw [List.append_assoc, eval_append, hvs, Option.bind_some, heval']
      rfl

/-- Every expression is read as specified. -/
lemma reads : ∀ {level : Level} (e : Expr level), Reads e
  | _, .operand w => readsFactor_operand w
  | _, .parentheses e => readsFactor_parentheses (reads e)
  | _, .factor e => readsConjunction_factor (reads e)
  | _, .and l r => readsConjunction_and (reads l) (reads r)
  | _, .conjunction e => readsDisjunction_conjunction (reads e)
  | _, .or l r => readsDisjunction_or (reads l) (reads r)

lemma popAll_eq {ops : List Operator} (hl : LEFTPARENTHESIS ∉ ops) (hr : RIGHTPARENTHESIS ∉ ops)
    (segments : List Op) : popAll ops segments = .ok (segments ++ ops.map operator) := by
  induction ops generalizing segments with
  | nil => rw [popAll, List.map_nil, List.append_nil]
  | cons op ops ih =>
    rw [List.mem_cons, not_or] at hl hr
    rw [popAll, if_neg (not_or.mpr ⟨hl.1, hr.1⟩), ih hl.2 hr.2, List.map_cons, List.append_assoc]
    rfl

/-- The postfix form of the tokens of an expression has its value. -/
theorem reversePolishTokens_tokens (e : Expr .disjunction) :
    ∃ segments : List Op, reversePolishTokens e.tokens = .ok segments ∧
      ∀ assignment, eval assignment segments [] = some [e.value assignment] := by
  obtain ⟨r, pending, k, hpending, hread, heval⟩ : ReadsDisjunction e := reads e
  have htokens := hread [] [] [] (by simp)
  rw [List.append_nil, List.nil_append, List.append_nil, readTokens] at htokens
  have hright : RIGHTPARENTHESIS ∉ pending ++ List.replicate k OR := by
    rcases hpending with rfl | rfl <;> simp [List.mem_replicate]
  refine ⟨r ++ (pending ++ List.replicate k OR).map operator, ?_, fun assignment => ?_⟩
  · rw [reversePolishTokens, htokens]
    exact popAll_eq (not_mem_left k hpending) hright r
  · obtain ⟨c, xs, rfl, hv, hvs⟩ := heval assignment
    rw [hv]
    exact eval_left (hvs [])

/-! ### Written expressions -/

def text : Op → Chars
  | operand w => w
  | operator op => op.symbol

/-- The class of the characters of a token. -/
def kind : Op → CharType
  | operand _ => .OPERAND
  | operator AND => .OPERATOR
  | operator OR => .OPERATOR
  | operator _ => .PARENTHESIS

/-- The tokens, with any number of blanks around them. -/
inductive Spaced : List Op → Chars → Prop
  | nil {gap : Chars} (hgap : ∀ ch ∈ gap, isSeparatorChar ch = true) : Spaced [] gap
  | cons {gap s : Chars} {t : Op} {ts : List Op} (hgap : ∀ ch ∈ gap, isSeparatorChar ch = true)
    (h : Spaced ts s) : Spaced (t :: ts) (gap ++ text t ++ s)

/-- The operand of a token is a word. -/
def Legal (t : Op) : Prop := ∀ w, t = operand w → w ≠ [] ∧ ∀ ch ∈ w, isOperandChar ch = true

/-- Two words of one class cannot stand side by side. -/
def Apart (a b : CharType) : Prop := ¬(b = a ∧ b.isWord = true)

/-- The part of a token that the next character may go on with. -/
def carry (t : Op) : Chars := if (kind t).isWord then text t else []

lemma charType_operand {ch : UInt16} (h : isOperandChar ch = true) :
    charType ch = some .OPERAND := by
  rw [charType, if_pos h]

lemma charType_separator {ch : UInt16} (h : isSeparatorChar ch = true) :
    charType ch = some .SEPAERATOR := by
  rw [isSeparatorChar, Bool.or_eq_true, beq_iff_eq, beq_iff_eq] at h
  rcases h with rfl | rfl <;> rfl

variable {i : ℕ} {pre t : CharType} {w s : Chars} {a ts : List Op}

/-- Going on with a word. -/
lemma lex_run (hword : t.isWord = true) {cs : Chars} (hcs : ∀ ch ∈ cs, charType ch = some t)
    (i : ℕ) (w s : Chars) : lex i t w (cs ++ s) = lex (i + cs.length) t (w ++ cs) s := by
  induction cs generalizing i w with
  | nil => simp
  | cons ch cs ih =>
    rw [List.cons_append, lex, hcs ch List.mem_cons_self]
    simp only
    rw [if_pos ⟨trivial, hword⟩, ih fun c hc => hcs c (List.mem_cons_of_mem _ hc), List.length_cons,
      List.append_assoc, List.singleton_append]
    congr 1
    omega

/-- A character that does not go on with the word before it. -/
lemma lex_cons {ch : UInt16} (hch : charType ch = some t) (hapart : Apart pre t)
    (hflush : flush pre w = .ok a) :
    lex i pre w (ch :: s) =
      (lex (i + 1) t (beginWord t ch) s).map fun us => a ++ parenthesis t ch ++ us := by
  rw [lex, hch]
  simp only
  rw [if_neg hapart, hflush]
  rfl

/-- A word that does not go on with the one before it. -/
lemma lex_word {u : Chars} (hne : u ≠ []) (hu : ∀ ch ∈ u, charType ch = some t)
    (hword : t.isWord = true) (hapart : Apart pre t) (hflush : flush pre w = .ok a) :
    lex i pre w (u ++ s) = (lex (i + u.length) t u s).map (a ++ ·) := by
  obtain ⟨ch, cs, rfl⟩ := List.exists_cons_of_ne_nil hne
  have hpar : parenthesis t ch = [] := if_neg fun h => by simp [h, CharType.isWord] at hword
  rw [List.cons_append, lex_cons (hu ch List.mem_cons_self) hapart hflush, hpar, beginWord,
    if_pos hword, lex_run hword fun c hc => hu c (List.mem_cons_of_mem _ hc), List.length_cons,
    List.singleton_append, List.append_nil]
  congr 2
  omega

lemma flush_not_isWord (h : pre.isWord = false) (w : Chars) : flush pre w = .ok [] := by
  cases pre <;> simp [CharType.isWord] at h <;> rfl

/-- Blanks end a word. -/
lemma lex_gap {gap : Chars} (hgap : ∀ ch ∈ gap, isSeparatorChar ch = true)
    (hflush : flush pre w = .ok a) :
    gap = [] ∨ lex i pre w (gap ++ s) = (lex (i + gap.length) .SEPAERATOR [] s).map (a ++ ·) := by
  induction gap generalizing i pre w a with
  | nil => exact .inl rfl
  | cons ch gap ih =>
    right
    have hch := charType_separator (hgap ch List.mem_cons_self)
    have hstep := lex_cons (i := i) (s := gap ++ s) hch
      (fun h => by simp [CharType.isWord] at h) hflush
    have hpar : parenthesis .SEPAERATOR ch = [] := rfl
    have hbegin : beginWord .SEPAERATOR ch = [] := rfl
    rw [hpar, hbegin, List.append_nil] at hstep
    rw [List.cons_append, hstep]
    rcases ih (i := i + 1) (fun c hc => hgap c (List.mem_cons_of_mem _ hc))
      (flush_not_isWord rfl [] : flush .SEPAERATOR [] = .ok []) with rfl | h
    · rfl
    · have hi : i + (gap.length + 1) = i + 1 + gap.length := by omega
      rw [h, List.length_cons, hi]
      cases lex (i + 1 + gap.length) CharType.SEPAERATOR [] s <;> rfl

/-- A token that does not go on with the one before it. -/
lemma lex_token {t : Op} (hlegal : Legal t) (hapart : Apart pre (kind t))
    (hflush : flush pre w = .ok a) :
    lex i pre w (text t ++ s) = (lex (i + (text t).length) (kind t) (carry t) s).map
      fun us => a ++ (if (kind t).isWord then [] else [t]) ++ us := by
  cases t with
  | operand u =>
    obtain ⟨hne, hu⟩ := hlegal u rfl
    rw [text, lex_word hne (fun ch hc => charType_operand (hu ch hc)) rfl hapart hflush]
    simp [kind, carry, CharType.isWord, text]
  | operator op =>
    cases op with
    | LEFTPARENTHESIS =>
      rw [show text (operator LEFTPARENTHESIS) = [40] from rfl, List.singleton_append,
        lex_cons (t := .PARENTHESIS) rfl hapart hflush]
      rfl
    | RIGHTPARENTHESIS =>
      rw [show text (operator RIGHTPARENTHESIS) = [41] from rfl, List.singleton_append,
        lex_cons (t := .PARENTHESIS) rfl hapart hflush]
      rfl
    | AND =>
      rw [show text (operator AND) = [38, 38] from rfl, lex_word (t := .OPERATOR) (by simp)
        (List.forall_mem_cons.mpr ⟨rfl, List.forall_mem_singleton.mpr rfl⟩) rfl hapart hflush]
      simp [kind, carry, CharType.isWord, text, symbol]
    | OR =>
      rw [show text (operator OR) = [124, 124] from rfl, lex_word (t := .OPERATOR) (by simp)
        (List.forall_mem_cons.mpr ⟨rfl, List.forall_mem_singleton.mpr rfl⟩) rfl hapart hflush]
      simp [kind, carry, CharType.isWord, text, symbol]

/-- The token that is carried comes out when its word ends. -/
lemma flush_carry (t : Op) :
    flush (kind t) (carry t) = .ok (if (kind t).isWord then [t] else []) := by
  cases t with
  | operand w => rfl
  | operator op => cases op <;> rfl

/-- The tokens of a written expression, after the word before it. -/
lemma lex_spaced (h : Spaced ts s) (hlegal : ∀ t ∈ ts, Legal t) (i : ℕ) {pre : CharType}
    {w : Chars} {a : List Op} (hflush : flush pre w = .ok a) (hw : w = [] ↔ pre.isWord = false)
    (hchain : (pre :: ts.map kind).IsChain Apart)
    (hlast : (pre :: ts.map kind).getLast (List.cons_ne_nil _ _) ≠ .OPERATOR) :
    lex i pre w s = .ok (a ++ ts) := by
  induction h generalizing i pre w a with
  | @nil gap hgap =>
    have hend {j : ℕ} {pre : CharType} {w : Chars} {a : List Op} (hflush : flush pre w = .ok a)
        (hw : w = [] ↔ pre.isWord = false) (hpre : pre ≠ .OPERATOR) :
        lex j pre w [] = .ok a := by
      rw [lex]
      cases pre with
      | OPERATOR => exact absurd rfl hpre
      | OPERAND =>
        rw [if_neg fun h => by simpa [CharType.isWord] using hw.mp h]
        exact hflush
      | _ =>
        rw [if_pos (hw.mpr rfl)]
        exact hflush
    rw [List.append_nil]
    rcases lex_gap (i := i) (s := []) hgap hflush with rfl | hlex
    · exact hend hflush hw hlast
    · rw [List.append_nil] at hlex
      rw [hlex, hend (flush_not_isWord rfl []) (by simp [CharType.isWord]) (by simp)]
      simp [Except.map]
  | @cons gap s t ts hgap _ ih =>
    have hcarry : carry t = [] ↔ (kind t).isWord = false := by
      cases t with
      | operand u => simpa [carry, kind, CharType.isWord, text] using
          (hlegal _ List.mem_cons_self u rfl).1
      | operator op => cases op <;> simp [carry, kind, CharType.isWord, text, symbol]
    rw [List.map_cons, List.isChain_cons_cons] at hchain
    have hafter {j : ℕ} {p : CharType} {u : Chars} {b : List Op} (hflush : flush p u = .ok b)
        (hapart : Apart p (kind t)) : lex j p u (text t ++ s) = .ok (b ++ t :: ts) := by
      have hrest := ih (fun t ht => hlegal t (List.mem_cons_of_mem _ ht)) (j + (text t).length)
        (flush_carry t) hcarry hchain.2 (by simpa using hlast)
      rw [lex_token (hlegal t List.mem_cons_self) hapart hflush, hrest]
      cases (kind t).isWord <;> simp [Except.map]
    rw [List.append_assoc]
    rcases lex_gap (i := i) (s := text t ++ s) hgap hflush with rfl | hlex
    · exact hafter hflush hchain.1
    · rw [hlex, hafter (flush_not_isWord rfl []) fun h => ?_]
      · simp [Except.map]
      · rw [h.1] at h
        simp [CharType.isWord] at h

/-! ### Grammar -/

/-- A class that an expression may begin and end with. -/
def Outer (t : CharType) : Prop := t = .OPERAND ∨ t = .PARENTHESIS

/-- How the tokens of an expression stand: words apart, and no operator outside. -/
structure Neat (ts : List Op) : Prop where
  ne : ts ≠ []
  legal : ∀ t ∈ ts, Legal t
  chain : (ts.map kind).IsChain Apart
  head : ∀ t ∈ (ts.map kind).head?, Outer t
  last : ∀ t ∈ (ts.map kind).getLast?, Outer t

lemma legal_operator (op : Operator) : Legal (operator op) := fun _ h => by cases h

lemma Outer.apart_operator (h : Outer t) : Apart t .OPERATOR := by
  rcases h with rfl | rfl <;> simp [Apart]

lemma Outer.operator_apart (h : Outer t) : Apart .OPERATOR t := by
  rcases h with rfl | rfl <;> simp [Apart]

lemma apart_parenthesis (t : CharType) : Apart t .PARENTHESIS := by
  simp [Apart, CharType.isWord]

lemma Outer.parenthesis_apart (h : Outer t) : Apart .PARENTHESIS t := by
  rcases h with rfl | rfl <;> simp [Apart, CharType.isWord]

/-- Two expressions with an operator between them. -/
lemma Neat.append {us : List Op} {op : Operator} (hts : Neat ts) (hus : Neat us)
    (hop : kind (operator op) = .OPERATOR) : Neat (ts ++ operator op :: us) where
  ne := by simp
  legal t ht := by
    rcases List.mem_append.mp ht with h | h
    · exact hts.legal t h
    · rcases List.mem_cons.mp h with rfl | h
      · exact legal_operator op
      · exact hus.legal t h
  chain := by
    rw [List.map_append, List.map_cons, hop, List.isChain_append, List.isChain_cons]
    refine ⟨hts.chain, ⟨fun t ht => (hus.head t ht).operator_apart, hus.chain⟩,
      fun x hx y hy => ?_⟩
    obtain rfl : .OPERATOR = y := by simpa using hy
    exact (hts.last x hx).apart_operator
  head t ht := by
    rw [List.map_append, List.head?_append_of_ne_nil _ (by simpa using hts.ne)] at ht
    exact hts.head t ht
  last t ht := by
    rw [List.map_append, List.map_cons, List.getLast?_append_of_ne_nil _ (by simp),
      List.getLast?_cons_of_ne_nil (by simpa using hus.ne)] at ht
    exact hus.last t ht

lemma neat_tokens : ∀ {level : Level} (e : Expr level), Neat e.tokens
  | _, .operand w => by
    refine ⟨by simp [Expr.tokens], fun t ht u hu => ?_, by simp [Expr.tokens], fun t ht => ?_,
      fun t ht => ?_⟩
    · simp only [Expr.tokens, List.mem_singleton] at ht
      rw [ht] at hu
      cases hu
      exact w.2
    · left
      simpa [Expr.tokens, kind, eq_comm] using ht
    · left
      simpa [Expr.tokens, kind, eq_comm] using ht
  | _, .parentheses e => by
    have he := neat_tokens e
    refine ⟨by simp [Expr.tokens], fun t ht => ?_, ?_, fun t ht => ?_, fun t ht => ?_⟩
    · simp only [Expr.tokens, List.mem_cons, List.mem_append, List.not_mem_nil, or_false] at ht
      rcases ht with rfl | ht | rfl
      · exact legal_operator _
      · exact he.legal t ht
      · exact legal_operator _
    · rw [Expr.tokens, List.map_cons, List.map_append, List.isChain_cons, List.isChain_append]
      refine ⟨fun t ht => ?_, he.chain, by simp, fun x _ y hy => ?_⟩
      · rw [List.head?_append_of_ne_nil _ (by simpa using he.ne)] at ht
        exact (he.head t ht).parenthesis_apart
      · obtain rfl : .PARENTHESIS = y := by simpa [kind] using hy
        exact apart_parenthesis x
    · right
      simpa [Expr.tokens, kind, eq_comm] using ht
    · right
      rw [Expr.tokens, List.map_cons, List.map_append, ← List.cons_append,
        List.getLast?_append_of_ne_nil _ (by simp)] at ht
      simpa [kind, eq_comm] using ht
  | _, .factor e => neat_tokens e
  | _, .and l r => (neat_tokens l).append (neat_tokens r) rfl
  | _, .conjunction e => neat_tokens e
  | _, .or l r => (neat_tokens l).append (neat_tokens r) rfl

/-- The strings that write an expression. -/
def Writes (e : Expr .disjunction) (s : Chars) : Prop := Spaced e.tokens s

lemma not_isOperatorChar {ch : UInt16} (h : charType ch = some t) (ht : t ≠ .OPERATOR) :
    isOperatorChar ch = false := by
  by_contra hop
  rw [Bool.not_eq_false, isOperatorChar, Bool.or_eq_true, beq_iff_eq, beq_iff_eq] at hop
  rcases hop with rfl | rfl <;> exact ht (Option.some.inj h.symm)

/-- An expression does not begin with an operator. -/
lemma head_writes (h : Spaced ts s) (hneat : Neat ts) :
    ∀ ch ∈ s.head?, isOperatorChar ch = false := by
  intro ch hch
  cases h with
  | nil => exact absurd rfl hneat.ne
  | @cons gap s t ts hgap _ =>
    cases gap with
    | cons c gap =>
      obtain rfl : c = ch := by simpa using hch
      exact not_isOperatorChar (charType_separator (hgap c List.mem_cons_self)) (by simp)
    | nil =>
      have hout := hneat.head (kind t) rfl
      cases t with
      | operand w =>
        obtain ⟨hne, hw⟩ := hneat.legal _ List.mem_cons_self w rfl
        obtain ⟨c, w, rfl⟩ := List.exists_cons_of_ne_nil hne
        obtain rfl : c = ch := by simpa [text] using hch
        exact not_isOperatorChar (charType_operand (hw c List.mem_cons_self)) (by simp)
      | operator op =>
        cases op with
        | LEFTPARENTHESIS =>
          obtain rfl : 40 = ch := by simpa [text, symbol] using hch
          rfl
        | RIGHTPARENTHESIS =>
          obtain rfl : 41 = ch := by simpa [text, symbol] using hch
          rfl
        | AND => rcases hout with h | h <;> cases h
        | OR => rcases hout with h | h <;> cases h

/-- The tokens of a written expression. -/
lemma participle_writes {e : Expr .disjunction} (h : Writes e s) :
    participle s = .ok e.tokens := by
  have hneat := neat_tokens e
  have hne : e.tokens.map kind ≠ [] := by simpa using hneat.ne
  rw [participle_eq (head_writes h hneat),
    lex_spaced h hneat.legal 0 (flush_not_isWord rfl []) (by simp [CharType.isWord])]
  · rfl
  · refine List.isChain_cons.mpr ⟨fun t ht => ?_, hneat.chain⟩
    rcases hneat.head t ht with rfl | rfl <;> simp [Apart]
  · rw [List.getLast_cons hne]
    rcases hneat.last _ (List.getLast?_eq_getLast_of_ne_nil hne) with h | h <;> simp [h]

/-- **Reverse Polish notation.** The postfix form of a written expression is evaluated to its value,
whatever the values of the operands. -/
theorem reversePolish_writes (e : Expr .disjunction) {s : Chars} (h : Writes e s) :
    ∃ segments : List Op, reversePolish s = .ok segments ∧
      ∀ assignment, eval assignment segments [] = some [e.value assignment] := by
  rw [reversePolish, participle_writes h]
  exact reversePolishTokens_tokens e

lemma isOperandChar_chars : (∀ ch ∈ chars "a", isOperandChar ch = true) ∧
    ∀ ch ∈ chars "b", isOperandChar ch = true :=
  ⟨List.forall_mem_singleton.mpr rfl, List.forall_mem_singleton.mpr rfl⟩

/-- `a || b` -/
def eitherExpr : Expr .disjunction :=
  .or (.conjunction (.factor (.operand ⟨chars "a", List.cons_ne_nil _ _, isOperandChar_chars.1⟩)))
    (.factor (.operand ⟨chars "b", List.cons_ne_nil _ _, isOperandChar_chars.2⟩))

lemma writes_eitherExpr : Writes eitherExpr (chars "a||\tb ") := by
  have hgap : ∀ ch ∈ chars " ", isSeparatorChar ch = true := List.forall_mem_singleton.mpr rfl
  have htab : ∀ ch ∈ chars "\t", isSeparatorChar ch = true := List.forall_mem_singleton.mpr rfl
  have hnone : ∀ ch ∈ ([] : Chars), isSeparatorChar ch = true := List.forall_mem_nil _
  exact .cons hnone (.cons hnone (.cons htab (.nil hgap)))

/-- The expression `a || b`, with blanks. -/
theorem reversePolish_eitherExpr : Writes eitherExpr (chars "a||\tb ") ∧
    ∃ segments : List Op, reversePolish (chars "a||\tb ") = .ok segments ∧
      ∀ assignment, eval assignment segments [] = some [eitherExpr.value assignment] :=
  ⟨writes_eitherExpr, reversePolish_writes eitherExpr writes_eitherExpr⟩

end CloudMQ.FilterExpr
