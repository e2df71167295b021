import Mathlib.Data.List.Basic
import Mathlib.Tactic

/-!
Lists that are read and written at an index: what stands where after a change, and how often
something occurs in a list of lists.
-/

namespace CloudMQ.Lists

variable {α β : Type}

lemma getElem?_set_cases {l : List α} {i j : ℕ} {a b : α} (h : (l.set i a)[j]? = some b) :
    (j = i ∧ b = a) ∨ (j ≠ i ∧ l[j]? = some b) := by
  rw [List.getElem?_set] at h
  split_ifs at h with hij
  · cases h
    exact .inl ⟨hij.symm, rfl⟩
  · exact .inr ⟨fun heq => hij heq.symm, h⟩

lemma getElem?_set_of_getElem? {l : List α} {i : ℕ} {a b : α} (h : l[i]? = some a) :
    (l.set i b)[i]? = some b :=
  List.getElem?_set_self (List.getElem?_eq_some_iff.mp h).1

lemma getElem?_concat_cases {l : List α} {j : ℕ} {a b : α} (h : (l ++ [a])[j]? = some b) :
    (j = l.length ∧ b = a) ∨ l[j]? = some b := by
  rcases lt_trichotomy j l.length with hlt | rfl | hgt
  · rw [List.getElem?_append_left hlt] at h
    exact .inr h
  · rw [List.getElem?_concat_length] at h
    cases h
    exact .inl ⟨rfl, rfl⟩
  · rw [List.getElem?_eq_none (by simp; omega)] at h
    cases h

lemma getElem?_append_of_getElem? {l l' : List α} {j : ℕ} {a : α} (h : l[j]? = some a) :
    (l ++ l')[j]? = some a := by
  rw [List.getElem?_append_left (List.getElem?_eq_some_iff.mp h).1]
  exact h

section

variable [DecidableEq β]

lemma count_flatMap_modify (f : α → List β) (g : α → α) {l : List α} {i : ℕ} {a : α}
    (h : l[i]? = some a) (x : β) :
    ((l.modify i g).flatMap f).count x + (f a).count x =
      (l.flatMap f).count x + (f (g a)).count x := by
  induction l generalizing i with
  | nil => simp at h
  | cons b l ih =>
    cases i with
    | zero =>
      cases h
      simp only [List.modify_zero_cons, List.flatMap_cons, List.count_append]
      omega
    | succ i =>
      have hrest := ih (i := i) h
      simp only [List.modify_succ_cons, List.flatMap_cons, List.count_append]
      omega

lemma count_flatMap_set (f : α → List β) {l : List α} {i : ℕ} {a : α} (h : l[i]? = some a)
    (b : α) (x : β) :
    ((l.set i b).flatMap f).count x + (f a).count x =
      (l.flatMap f).count x + (f b).count x := by
  rw [List.set_eq_modify]
  exact count_flatMap_modify f (fun _ => b) h x

lemma count_flatten_modify (g : List β → List β) {l : List (List β)} {i : ℕ} {a : List β}
    (h : l[i]? = some a) (x : β) :
    (l.modify i g).flatten.count x + a.count x = l.flatten.count x + (g a).count x := by
  rw [← List.flatMap_id, ← List.flatMap_id]
  exact count_flatMap_modify id g h x

end

/-! ### Counting -/

lemma countP_eraseIdx_of_neg {p : α → Bool} {l : List α} {i : ℕ} {a : α} (h : l[i]? = some a)
    (hp : p a = false) : (l.eraseIdx i).countP p = l.countP p := by
  obtain ⟨hi, rfl⟩ := List.getElem?_eq_some_iff.mp h
  rw [← (List.getElem_cons_eraseIdx_perm hi).countP_eq p]
  exact (List.countP_cons_of_neg (by rw [hp]; exact Bool.false_ne_true)).symm

lemma countP_set_of_eq {p : α → Bool} {l : List α} {i : ℕ} {a b : α} (h : l[i]? = some a)
    (hp : p b = p a) : (l.set i b).countP p = l.countP p := by
  obtain ⟨hi, rfl⟩ := List.getElem?_eq_some_iff.mp h
  rw [List.countP_set hi, hp]
  split_ifs with ha
  · exact Nat.sub_add_cancel (List.countP_pos_iff.mpr ⟨_, List.getElem_mem hi, ha⟩)
  · rfl

/-- Rows of one length, one behind the other. -/
lemma getElem?_flatMap_range (f : ℕ → ℕ → α) {m n k i : ℕ} (hk : k < n) (hi : i < m) :
    ((List.range n).flatMap fun k => (List.range m).map (f k))[m * k + i]? = some (f k i) := by
  induction n with
  | zero => exact absurd hk (Nat.not_lt_zero k)
  | succ n ih =>
    have hlen : ((List.range n).flatMap fun k => (List.range m).map (f k)).length = m * n := by
      simp [List.length_flatMap, Nat.mul_comm]
    rw [List.range_succ, List.flatMap_append, List.flatMap_singleton]
    rcases Nat.lt_succ_iff_lt_or_eq.mp hk with hlt | rfl
    · have hle : m * k + m ≤ m * n := by
        rw [← Nat.mul_succ]
        exact Nat.mul_le_mul_left m hlt
      rw [List.getElem?_append_left (by omega), ih hlt]
    · rw [List.getElem?_append_right (by omega), hlen, Nat.add_sub_cancel_left]
      simp [hi]

lemma mem_modify_cases {γ : Type*} {l : List γ} {i : ℕ} {f : γ → γ} {b : γ}
    (h : b ∈ l.modify i f) : b ∈ l ∨ ∃ a, l[i]? = some a ∧ b = f a := by
  obtain ⟨j, hj⟩ := List.mem_iff_getElem?.mp h
  rw [List.getElem?_modify] at hj
  obtain ⟨a, ha, heq⟩ := Option.map_eq_some_iff.mp hj
  by_cases hij : i = j
  · rw [if_pos hij] at heq
    exact .inr ⟨a, hij ▸ ha, heq.symm⟩
  · rw [if_neg hij] at heq
    exact .inl (heq ▸ List.mem_of_getElem? ha)

lemma map_modify_of_eq {γ δ : Type*} {l : List γ} {i : ℕ} {f : γ → γ} {g : γ → δ}
    (h : ∀ a, l[i]? = some a → g (f a) = g a) : (l.modify i f).map g = l.map g := by
  apply List.ext_getElem?
  intro j
  rw [List.getElem?_map, List.getElem?_map, List.getElem?_modify]
  by_cases hij : i = j
  · subst hij
    cases ha : l[i]? with
    | none => rfl
    | some a => simp [h a ha]
  · simp [hij]

lemma perm_cons_eraseIdx {γ : Type*} {l : List γ} {i : ℕ} {a : γ} (h : l[i]? = some a) :
    l.Perm (a :: l.eraseIdx i) := by
  obtain ⟨hlt, rfl⟩ := List.getElem?_eq_some_iff.mp h
  exact (List.getElem_cons_eraseIdx_perm hlt).symm

end CloudMQ.Lists
