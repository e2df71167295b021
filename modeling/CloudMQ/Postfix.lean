import Mathlib.Tactic

/-!
Expressions in postfix form, evaluated with a stack.

A token is an operand, which puts a value on the stack, or an operator, which takes the two topmost
values and puts one back. An expression is well formed when the evaluation never runs out of values
and leaves exactly one.
-/

namespace CloudMQ.Postfix

variable {α ω β : Type*}

inductive Token (α ω : Type*)
  | operand (a : α)
  | operator (o : ω)
deriving DecidableEq

/-- The stack after the tokens. A symbol that `apply` does not know is not an operator. -/
def evaluate (value : α → β) (apply : ω → Option (β → β → β)) :
    List (Token α ω) → List β → Option (List β)
  | [], vs => some vs
  | .operand a :: ts, vs => evaluate value apply ts (value a :: vs)
  | .operator o :: ts, b :: a :: vs =>
    (apply o).bind fun f => evaluate value apply ts (f a b :: vs)
  | .operator _ :: _, _ => none

variable {value : α → β} {apply : ω → Option (β → β → β)} {o : ω} {f : β → β → β}

@[simp] lemma evaluate_nil (vs : List β) : evaluate value apply [] vs = some vs := rfl

@[simp] lemma evaluate_operand (a : α) (ts : List (Token α ω)) (vs : List β) :
    evaluate value apply (.operand a :: ts) vs = evaluate value apply ts (value a :: vs) := rfl

lemma evaluate_operator (h : apply o = some f) (ts : List (Token α ω)) (a b : β) (vs : List β) :
    evaluate value apply (.operator o :: ts) (b :: a :: vs) =
      evaluate value apply ts (f a b :: vs) := by
  simp [evaluate, h]

lemma evaluate_append (ts us : List (Token α ω)) (vs : List β) :
    evaluate value apply (ts ++ us) vs =
      (evaluate value apply ts vs).bind (evaluate value apply us) := by
  induction ts generalizing vs with
  | nil => rfl
  | cons t ts ih =>
    cases t with
    | operand a => exact ih _
    | operator o =>
      rcases vs with _ | ⟨b, _ | ⟨a, vs⟩⟩
      · rfl
      · rfl
      · rw [List.cons_append, evaluate, evaluate]
        cases apply o with
        | none => rfl
        | some f => exact ih _

/-- One operator so many times folds as many values into the topmost. -/
lemma evaluate_replicate (h : apply o = some f) (b : β) (xs vs : List β) :
    evaluate value apply (List.replicate xs.length (.operator o)) (b :: xs ++ vs) =
      some (xs.foldl (fun b a => f a b) b :: vs) := by
  induction xs generalizing b with
  | nil => rfl
  | cons x xs ih =>
    rw [List.length_cons, List.replicate_succ, List.cons_append, List.cons_append,
      evaluate_operator h]
    exact ih _

/-- The evaluation takes its arguments and leaves one value, for all values of the operands. -/
def WellFormed (apply : ω → Option (β → β → β)) (ts : List (Token α ω)) : Prop :=
  ∀ value : α → β, ∃ v, evaluate value apply ts [] = some [v]

end CloudMQ.Postfix
