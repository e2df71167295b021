import Mathlib.Tactic

/-!
A log of entries with a chain through the entries of each slot.

Entries are numbered from one. Every entry keeps the number of the entry before it in its slot, and
zero stands for none. So a walk from the last entry of a slot back to zero comes by all of them.
-/

namespace CloudMQ.HashChain

variable {A S : Type*} [DecidableEq S] (slot : A → S) (prev : A → ℕ)

/-- The number of the last entry in a slot. -/
def lastIn (p : S) (l : List A) : ℕ := l.length - l.reverse.findIdx fun a => decide (slot a = p)

@[simp] lemma lastIn_nil (p : S) : lastIn slot p [] = 0 := rfl

lemma lastIn_snoc (p : S) (l : List A) (a : A) :
    lastIn slot p (l ++ [a]) = if slot a = p then l.length + 1 else lastIn slot p l := by
  unfold lastIn
  rw [List.reverse_append, List.reverse_singleton, List.singleton_append, List.findIdx_cons,
    List.length_append, List.length_singleton]
  by_cases h : slot a = p
  · simp [h]
  · simp [h, Nat.add_sub_add_right]

lemma lastIn_le (p : S) (l : List A) : lastIn slot p l ≤ l.length := Nat.sub_le _ _

/-- Every entry leads to the one before it in its slot. -/
inductive Linked : List A → Prop
  | nil : Linked []
  | snoc {l : List A} {a : A} (h : Linked l) (hprev : prev a = lastIn slot (slot a) l) :
      Linked (l ++ [a])

variable {slot prev}

/-- What holds at the end of the chain, and at an entry when it holds where the entry leads, holds
at the last entry of the slot. -/
theorem Linked.walk {motive : List A → ℕ → Prop} {p : S} {l : List A} (h : Linked slot prev l)
    (empty : motive [] 0)
    (skip : ∀ (l : List A) (a : A), slot a ≠ p → motive l (lastIn slot p l) →
      motive (l ++ [a]) (lastIn slot p l))
    (visit : ∀ (l : List A) (a : A), slot a = p → motive l (prev a) →
      motive (l ++ [a]) (l.length + 1)) : motive l (lastIn slot p l) := by
  induction h with
  | nil => exact empty
  | @snoc l a _ hprev ih =>
    rw [lastIn_snoc]
    by_cases hp : slot a = p
    · rw [if_pos hp]
      rw [hp] at hprev
      exact visit l a hp (hprev ▸ ih)
    · rw [if_neg hp]
      exact skip l a hp ih

end CloudMQ.HashChain
