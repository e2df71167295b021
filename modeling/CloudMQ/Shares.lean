import Mathlib.Tactic

/-!
Cutting a range of numbers into consecutive shares.

The shares are given by where they begin: a sequence that starts at zero and does not descend. Of
`m` things, `n` shares that differ by at most one begin at `i * (m / n) + min i (m % n)`.
-/

namespace CloudMQ.Shares

section

variable {f : ℕ → ℕ}

/-- Every number before the end of the last share is in a share. -/
lemma exists_share (h0 : f 0 = 0) {n j : ℕ} (hj : j < f n) : ∃ i < n, f i ≤ j ∧ j < f (i + 1) := by
  induction n with
  | zero => omega
  | succ n ih =>
    rcases lt_or_ge j (f n) with hlt | hge
    · obtain ⟨i, hi, hshare⟩ := ih hlt
      exact ⟨i, by omega, hshare⟩
    · exact ⟨n, by omega, hge, hj⟩

/-- No number is in two shares. -/
lemma share_unique (hf : Monotone f) {i i' j : ℕ} (h : f i ≤ j ∧ j < f (i + 1))
    (h' : f i' ≤ j ∧ j < f (i' + 1)) : i = i' := by
  by_contra hne
  rcases Nat.lt_or_gt_of_ne hne with hlt | hgt
  · have hle : f (i + 1) ≤ f i' := hf hlt
    omega
  · have hle : f (i' + 1) ≤ f i := hf hgt
    omega

end

/-- Where the share `i` begins, of `m` things in `n` shares. -/
def start (m n i : ℕ) : ℕ := i * (m / n) + min i (m % n)

@[simp] lemma start_zero (m n : ℕ) : start m n 0 = 0 := by
  simp [start]

lemma start_last {m n : ℕ} (hn : 0 < n) : start m n n = m := by
  have hmod := Nat.mod_lt m hn
  rw [start, min_eq_right hmod.le]
  exact Nat.div_add_mod m n

lemma start_succ (m n i : ℕ) :
    start m n (i + 1) = start m n i + m / n + if i < m % n then 1 else 0 := by
  simp only [start, Nat.add_mul, Nat.one_mul]
  split_ifs with h
  · rw [min_eq_left (by omega), min_eq_left (by omega)]
    omega
  · rw [min_eq_right (by omega), min_eq_right (by omega)]
    omega

lemma start_mono (m n : ℕ) : Monotone (start m n) :=
  monotone_nat_of_le_succ fun i => by
    rw [start_succ, Nat.add_assoc]
    exact Nat.le_add_right _ _

lemma start_le {m n i : ℕ} (hi : i ≤ n) (hn : 0 < n) : start m n i ≤ m :=
  (start_mono m n hi).trans (start_last hn).le

/-- As many things as shares: one each. -/
lemma start_self {n i : ℕ} (hn : 0 < n) : start n n i = i := by
  rw [start, Nat.div_self hn, Nat.mod_self]
  omega

/-- **Every thing is in one share.** -/
theorem existsUnique_share {m n j : ℕ} (hn : 0 < n) (hj : j < m) :
    ∃! i, i < n ∧ start m n i ≤ j ∧ j < start m n (i + 1) := by
  obtain ⟨i, hi, hshare⟩ := exists_share (start_zero m n) (hj.trans_eq (start_last hn).symm)
  exact ⟨i, ⟨hi, hshare⟩, fun i' h => share_unique (start_mono m n) h.2 hshare⟩

/-! ### Shares of a list -/

section

variable {α : Type*} {l s s' : List α} {p p' : ℕ → Prop}

/-- A list has what another one has at some places. -/
def Places (l : List α) (p : ℕ → Prop) (s : List α) : Prop :=
  ∀ a, a ∈ s ↔ ∃ j, l[j]? = some a ∧ p j

/-- Two shares of a list without duplicates that have no place in common. -/
lemma Places.disjoint (h : Places l p s) (h' : Places l p' s') (hl : l.Nodup)
    (hp : ∀ j < l.length, p j → ¬p' j) : s.Disjoint s' := by
  intro a ha ha'
  obtain ⟨j, hj, hpj⟩ := (h a).mp ha
  obtain ⟨j', hj', hpj'⟩ := (h' a).mp ha'
  have hlt : j < l.length := (List.getElem?_eq_some_iff.mp hj).1
  obtain rfl : j = j' := (List.getElem?_inj hlt hl).mp (hj.trans hj'.symm)
  exact hp j hlt hpj hpj'

/-- Shares that have every place between them. -/
lemma mem_iff_of_places {n : ℕ} {p : ℕ → ℕ → Prop} {shares : ℕ → List α}
    (h : ∀ i < n, Places l (p i) (shares i)) (hp : ∀ j < l.length, ∃ i < n, p i j) (a : α) :
    (∃ i < n, a ∈ shares i) ↔ a ∈ l := by
  constructor
  · rintro ⟨i, hi, ha⟩
    obtain ⟨j, hj, -⟩ := (h i hi a).mp ha
    exact List.mem_of_getElem? hj
  · intro ha
    obtain ⟨j, hj⟩ := List.mem_iff_getElem?.mp ha
    obtain ⟨i, hi, hpi⟩ := hp j (List.getElem?_eq_some_iff.mp hj).1
    exact ⟨i, hi, (h i hi a).mpr ⟨j, hj, hpi⟩⟩

/-- A block of a list. -/
lemma places_block (l : List α) (k r : ℕ) :
    Places l (fun j => k ≤ j ∧ j < k + r) ((l.drop k).take r) := by
  intro a
  rw [List.mem_iff_getElem?]
  simp only [List.getElem?_take, List.getElem?_drop]
  constructor
  · rintro ⟨i, hi⟩
    split_ifs at hi with hlt
    exact ⟨k + i, hi, by omega, by omega⟩
  · rintro ⟨j, hj, hge, hlt⟩
    refine ⟨j - k, ?_⟩
    rw [if_pos (by omega), Nat.add_sub_cancel' hge]
    exact hj

/-- The elements at the places of a set, in order. -/
def pick (p : ℕ → Prop) [DecidablePred p] (l : List α) (js : List ℕ) : List α :=
  js.flatMap fun j => if p j then l[j]?.toList else []

variable [DecidablePred p]

lemma mem_place {j : ℕ} {a : α} :
    a ∈ (if p j then l[j]?.toList else []) ↔ p j ∧ l[j]? = some a := by
  split_ifs with h
  · simp [h]
  · simp [h]

lemma mem_pick {js : List ℕ} {a : α} : a ∈ pick p l js ↔ ∃ j ∈ js, p j ∧ l[j]? = some a := by
  rw [pick, List.mem_flatMap]
  exact exists_congr fun j => and_congr_right fun _ => mem_place

lemma places_pick (l : List α) : Places l p (pick p l (List.range l.length)) := by
  intro a
  rw [mem_pick]
  refine exists_congr fun j => ?_
  rw [List.mem_range, and_left_comm, and_comm]
  exact and_congr_left fun _ => and_iff_right_of_imp fun h => (List.getElem?_eq_some_iff.mp h).1

/-- No element twice. -/
lemma nodup_pick (hl : l.Nodup) {js : List ℕ} (hjs : js.Nodup) : (pick p l js).Nodup := by
  refine List.nodup_flatMap.mpr ⟨fun j _ => ?_, hjs.imp fun {j j'} hne => ?_⟩
  · split_ifs
    · cases l[j]? with
      | none => exact List.nodup_nil
      | some a => exact List.nodup_singleton a
    · exact List.nodup_nil
  · intro a ha ha'
    have hj := (mem_place.mp ha).2
    have hlt : j < l.length := (List.getElem?_eq_some_iff.mp hj).1
    exact hne ((List.getElem?_inj hlt hl).mp (hj.trans (mem_place.mp ha').2.symm))

lemma pick_append (js js' : List ℕ) : pick p l (js ++ js') = pick p l js ++ pick p l js' :=
  List.flatMap_append

lemma length_pick {m : ℕ} (hm : m ≤ l.length) :
    (pick p l (List.range m)).length = (List.range m).countP p := by
  induction m with
  | zero => rfl
  | succ m ih =>
    rw [List.range_succ, pick_append, List.length_append, List.countP_append, ih (by omega), pick,
      List.flatMap_singleton]
    by_cases h : p m
    · rw [if_pos h, List.getElem?_eq_getElem (by omega), List.countP_singleton, if_pos (by simpa)]
      rfl
    · rw [if_neg h, List.countP_singleton, if_neg (by simpa)]
      rfl

/-- A set without the places before one of them. -/
lemma pick_range' {k m : ℕ} (h : ∀ j < k, ¬p j) :
    pick p l (List.range' k (m - k)) = pick p l (List.range m) := by
  have hnil : ∀ n ≤ k, pick p l (List.range n) = [] := by
    intro n hn
    refine List.flatMap_eq_nil_iff.mpr fun j hj => if_neg (h j ?_)
    exact (List.mem_range.mp hj).trans_le hn
  rcases Nat.le_total k m with hle | hle
  · have hsplit : List.range m = List.range k ++ List.range' k (m - k) := by
      have happend := @List.range'_append_1 0 k (m - k)
      rw [Nat.zero_add, Nat.add_sub_cancel' hle] at happend
      rw [List.range_eq_range', List.range_eq_range', happend]
    rw [hsplit, pick_append, hnil k le_rfl, List.nil_append]
  · rw [Nat.sub_eq_zero_of_le hle, hnil m hle]
    rfl

end

end CloudMQ.Shares
