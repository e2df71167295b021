import Mathlib.Data.List.Basic

/-!
Items that are taken off the front of a stream, while it arrives in pieces.

A taker either finds a whole item at the front, and leaves what is behind it, or waits. What it has
found once does not change when more arrives. Then the items do not depend on how the stream is cut
into pieces.
-/

namespace CloudMQ.Framing

/-- Takes an item off the front, when all of it is there. -/
structure Taker (α β : Type*) where
  take : List α → Option (β × List α)
  shortens : ∀ {s b rest}, take s = some (b, rest) → rest.length < s.length
  stable : ∀ {s b rest}, take s = some (b, rest) → ∀ t, take (s ++ t) = some (b, rest ++ t)

namespace Taker

variable {α β : Type*} (T : Taker α β)

/-- At most so many items, and what is left. -/
def takeUpTo : ℕ → List α → List β × List α
  | 0, s => ([], s)
  | n + 1, s =>
    match T.take s with
    | none => ([], s)
    | some (b, rest) => (b :: (takeUpTo n rest).1, (takeUpTo n rest).2)

/-- All the items that are there. -/
def drain (s : List α) : List β × List α := T.takeUpTo s.length s

/-- The items of the pieces that arrive behind what was left before. -/
def receive : List α → List (List α) → List β × List α
  | buffer, [] => ([], buffer)
  | buffer, chunk :: chunks =>
    let r := T.drain (buffer ++ chunk)
    (r.1 ++ (receive r.2 chunks).1, (receive r.2 chunks).2)

variable {T} {s t rest : List α} {b : β}

lemma takeUpTo_of_le {n m : ℕ} (hn : s.length ≤ n) (hm : s.length ≤ m) :
    T.takeUpTo n s = T.takeUpTo m s := by
  induction n generalizing s m with
  | zero =>
    obtain rfl := List.eq_nil_of_length_eq_zero (Nat.le_zero.mp hn)
    have hnone : T.take [] = none := by
      cases h : T.take [] with
      | none => rfl
      | some r => exact absurd (T.shortens h) (Nat.not_lt_zero _)
    cases m with
    | zero => rfl
    | succ m => rw [takeUpTo, takeUpTo, hnone]
  | succ n ih =>
    cases m with
    | zero =>
      obtain rfl := List.eq_nil_of_length_eq_zero (Nat.le_zero.mp hm)
      rw [takeUpTo, takeUpTo]
      cases h : T.take [] with
      | none => rfl
      | some r => exact absurd (T.shortens h) (Nat.not_lt_zero _)
    | succ m =>
      rw [takeUpTo, takeUpTo]
      cases h : T.take s with
      | none => rfl
      | some r =>
        obtain ⟨b, rest⟩ := r
        have hlt := T.shortens h
        have heq := ih (s := rest) (m := m) (by omega) (by omega)
        dsimp only
        rw [heq]

lemma drain_of_none (h : T.take s = none) : T.drain s = ([], s) := by
  unfold drain
  cases s.length with
  | zero => rfl
  | succ n => rw [takeUpTo, h]

lemma drain_of_some (h : T.take s = some (b, rest)) :
    T.drain s = (b :: (T.drain rest).1, (T.drain rest).2) := by
  have hlt := T.shortens h
  obtain ⟨n, hn⟩ := Nat.exists_eq_add_of_lt hlt
  have heq : T.takeUpTo (rest.length + n) rest = T.drain rest :=
    takeUpTo_of_le (Nat.le_add_right _ _) (Nat.le_refl _)
  rw [drain, hn, takeUpTo, h]
  dsimp only
  rw [heq]

/-- Nothing more is found in what is left. -/
lemma take_drain (s : List α) : T.take (T.drain s).2 = none := by
  induction hn : s.length using Nat.strongRecOn generalizing s with
  | ind n ih =>
    cases h : T.take s with
    | none =>
      rw [drain_of_none h]
      exact h
    | some r =>
      rw [drain_of_some h]
      exact ih _ (hn ▸ T.shortens h) _ rfl

/-- What arrives later is found behind what is left. -/
theorem drain_append (s t : List α) :
    T.drain (s ++ t) = ((T.drain s).1 ++ (T.drain ((T.drain s).2 ++ t)).1,
      (T.drain ((T.drain s).2 ++ t)).2) := by
  induction hn : s.length using Nat.strongRecOn generalizing s with
  | ind n ih =>
    cases h : T.take s with
    | none => rw [drain_of_none h, List.nil_append]
    | some r =>
      have hrest := ih _ (hn ▸ T.shortens h) _ rfl
      rw [drain_of_some (T.stable h t), drain_of_some h, hrest]
      rfl

/-- **However a stream is cut**, the items are those of the whole. -/
theorem receive_eq {buffer : List α} (h : T.take buffer = none) (chunks : List (List α)) :
    T.receive buffer chunks = T.drain (buffer ++ chunks.flatten) := by
  induction chunks generalizing buffer with
  | nil => rw [receive, List.flatten_nil, List.append_nil, drain_of_none h]
  | cons chunk chunks ih =>
    rw [receive, ih (take_drain _), List.flatten_cons, ← List.append_assoc,
      drain_append (buffer ++ chunk)]

/-- The code of each item is taken as this item, whatever stands behind it. -/
def Reads (T : Taker α β) (ok : β → Prop) (code : β → List α) : Prop :=
  ∀ b rest, ok b → T.take (code b ++ rest) = some (b, rest)

/-- A stream of codes is taken apart again. -/
theorem drain_flatMap {ok : β → Prop} {code : β → List α} (h : T.Reads ok code) {bs : List β}
    (hok : ∀ b ∈ bs, ok b) (hrest : T.take rest = none) :
    T.drain (bs.flatMap code ++ rest) = (bs, rest) := by
  induction bs with
  | nil => exact drain_of_none hrest
  | cons b bs ih =>
    have htake := h b (bs.flatMap code ++ rest) (hok b List.mem_cons_self)
    rw [List.flatMap_cons, List.append_assoc, drain_of_some htake,
      ih fun b' hb' => hok b' (List.mem_cons_of_mem b hb')]

end Taker

end CloudMQ.Framing
