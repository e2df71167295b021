import CloudMQ.Simulation

/-!
What a message store is for: messages are accepted one after the other, and in that order they
become visible, each in the stream that it belongs to.

Streams only ever grow at their ends, and so a message keeps the number it has in its stream.
-/

namespace CloudMQ.Streams

open CloudMQ.Runs

/-! ### The ledger -/

variable {α : Type*}

/-- What was accepted, and how much of it is visible. -/
@[ext] structure Ledger (α : Type*) where
  accepted : List α
  published : ℕ
  published_le : published ≤ accepted.length

namespace Ledger

inductive Op (α : Type*)
  | accept (x : α)
  | publish

def accept (l : Ledger α) (x : α) : Ledger α where
  accepted := l.accepted ++ [x]
  published := l.published
  published_le := by
    rw [List.length_append]
    exact Nat.le_add_right_of_le l.published_le

/-- Nothing is published before it is accepted. -/
def step (l : Ledger α) : Op α → Option (Ledger α)
  | .accept x => some (l.accept x)
  | .publish =>
    if h : l.published < l.accepted.length then some ⟨l.accepted, l.published + 1, h⟩ else none

def new : Ledger α := ⟨[], 0, le_rfl⟩

variable (l : Ledger α)

/-- What can be seen. -/
def visible : List α := l.accepted.take l.published

variable (p : α → Prop) [DecidablePred p]

/-- The part of the visible ones that belongs to a stream. -/
def stream : List α := l.visible.filter p

/-- The number that the next one of a stream gets. -/
def count : ℕ := (l.accepted.filter p).length

variable {l p} {l' : Ledger α} {x : α}

@[simp] lemma visible_new : (new : Ledger α).visible = [] := rfl

@[simp] lemma accepted_accept : (l.accept x).accepted = l.accepted ++ [x] := rfl

@[simp] lemma visible_accept : (l.accept x).visible = l.visible :=
  List.take_append_of_le_length l.published_le

@[simp] lemma stream_accept : (l.accept x).stream p = l.stream p := by
  rw [stream, visible_accept, stream]

lemma count_accept : (l.accept x).count p = l.count p + if p x then 1 else 0 := by
  rw [count, accepted_accept, List.filter_append, List.length_append, count]
  by_cases hx : p x
  · simp [hx]
  · simp [hx]

/-- Publishing shows the first one that could not be seen. -/
lemma visible_publish (hx : l.accepted[l.published]? = some x) :
    ∃ l', step l .publish = some l' ∧ l'.accepted = l.accepted ∧
      l'.published = l.published + 1 ∧ l'.visible = l.visible ++ [x] := by
  have hlt := (List.getElem?_eq_some_iff.mp hx).1
  refine ⟨_, dif_pos hlt, rfl, rfl, ?_⟩
  simp only [visible]
  rw [List.take_add_one, hx]
  rfl

/-- When everything is published, everything is visible. -/
lemma visible_of_all (h : l.published = l.accepted.length) : l.visible = l.accepted := by
  rw [visible, h, List.take_length]

/-- An element that a filter keeps has the number of those that it keeps in front of it. -/
lemma index_of_filter {p : α → Prop} [DecidablePred p] {xs : List α} {k : ℕ} {x : α}
    (h : (xs.filter p)[k]? = some x) :
    ∃ i, xs[i]? = some x ∧ p x ∧ ((xs.take i).filter p).length = k := by
  induction xs generalizing k with
  | nil => simp at h
  | cons y xs ih =>
    by_cases hy : p y
    · rw [List.filter_cons_of_pos (by simpa using hy)] at h
      cases k with
      | zero =>
        obtain rfl := Option.some.inj h
        exact ⟨0, rfl, hy, rfl⟩
      | succ k =>
        obtain ⟨i, hi, hx, hk⟩ := ih h
        exact ⟨i + 1, hi, hx, by simp [hy, hk]⟩
    · rw [List.filter_cons_of_neg (by simpa using hy)] at h
      obtain ⟨i, hi, hx, hk⟩ := ih h
      exact ⟨i + 1, hi, hx, by simp [hy, hk]⟩

/-- **The number in a stream** counts those of the stream that were accepted before. -/
lemma index_of_stream {k : ℕ} (h : (l.stream p)[k]? = some x) :
    ∃ i, l.accepted[i]? = some x ∧ p x ∧ ((l.accepted.take i).filter p).length = k := by
  obtain ⟨i, hi, hx, hk⟩ := index_of_filter h
  have hlt := (List.getElem?_eq_some_iff.mp hi).1
  rw [visible, List.length_take] at hlt
  rw [visible, List.getElem?_take_of_lt (by omega)] at hi
  refine ⟨i, hi, hx, ?_⟩
  rwa [visible, List.take_take, Nat.min_eq_left (by omega)] at hk

lemma step_prefix {op : Op α} (h : step l op = some l') :
    l.accepted <+: l'.accepted ∧ l.visible <+: l'.visible := by
  cases op with
  | accept x =>
    simp only [step, Option.some.injEq] at h
    rw [← h, visible_accept]
    exact ⟨List.prefix_append _ _, List.prefix_refl _⟩
  | publish =>
    simp only [step] at h
    split at h
    · rw [Option.some.injEq] at h
      rw [← h]
      exact ⟨List.prefix_refl _, List.take_prefix_take_left (Nat.le_succ _)⟩
    · exact absurd h (by simp)

/-- **Streams only grow**, over any number of steps. -/
theorem run_prefix {ops : List (Op α)} (h : run step l ops = some l') :
    l.accepted <+: l'.accepted ∧ l.stream p <+: l'.stream p := by
  have hstep : ∀ (t : Ledger α) (op : Op α) (t' : Ledger α),
      (l.accepted <+: t.accepted ∧ l.visible <+: t.visible) → step t op = some t' →
        l.accepted <+: t'.accepted ∧ l.visible <+: t'.visible := by
    intro t op t' ht hop
    obtain ⟨h1, h2⟩ := step_prefix hop
    exact ⟨ht.1.trans h1, ht.2.trans h2⟩
  have hboth := run_inductive hstep ⟨List.prefix_refl _, List.prefix_refl _⟩ h
  exact ⟨hboth.1, hboth.2.filter fun x => decide (p x)⟩

end Ledger

end CloudMQ.Streams
