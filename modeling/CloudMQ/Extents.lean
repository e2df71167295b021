import Mathlib.Tactic
import Mathlib.Data.List.Chain

/-!
Contiguous extents: a range of offsets covered by blocks of one size.

An extent is the start of a block and how much of the block is used. A list of extents is
contiguous when every block but the last is used up and the next one starts where it ends.
Dividing by the block size then finds the block an offset lies in.
-/

namespace CloudMQ.Extents

/-- Start and used length of a block. -/
abbrev Extent := ℕ × ℕ

def Follows (size : ℕ) (e e' : Extent) : Prop := e.2 = size ∧ e'.1 = e.1 + size

structure Contiguous (size : ℕ) (l : List Extent) : Prop where
  chain : l.IsChain (Follows size)
  aligned : ∀ e ∈ l, size ∣ e.1
  used_le : ∀ e ∈ l, e.2 ≤ size

/-- The offset behind the last used one. -/
def endOf (l : List Extent) : ℕ :=
  match l.getLast? with
  | some e => e.1 + e.2
  | none => 0

/-- What cutting at `offset` leaves of an extent. -/
def truncate (size offset : ℕ) (e : Extent) : Option Extent :=
  if offset < e.1 + size then
    if e.1 ≤ offset then some (e.1, offset % size) else none
  else some e

variable {size : ℕ} {l l' : List Extent} {e e' : Extent}

@[simp] lemma endOf_nil : endOf [] = 0 := rfl

@[simp] lemma endOf_snoc : endOf (l ++ [e]) = e.1 + e.2 := by simp [endOf]

namespace Contiguous

lemma nil : Contiguous size [] := ⟨.nil, by simp, by simp⟩

/-- A part of a contiguous list is contiguous. -/
lemma part (h : Contiguous size l) (hl : l' <:+: l) : Contiguous size l' := by
  refine ⟨?_, fun e he => h.aligned e (hl.subset he), fun e he => h.used_le e (hl.subset he)⟩
  obtain ⟨s, t, rfl⟩ := hl
  exact h.chain.left_of_append.right_of_append

/-- Blocks of a contiguous list, all used up. -/
lemma fill (h : Contiguous size l) : Contiguous size (l.map fun e => (e.1, size)) := by
  refine ⟨?_, fun e he => ?_, fun e he => ?_⟩
  · rw [List.isChain_map]
    exact h.chain.imp fun _ _ hf => ⟨rfl, hf.2⟩
  · obtain ⟨e', he', rfl⟩ := List.mem_map.mp he
    exact h.aligned e' he'
  · obtain ⟨e', -, rfl⟩ := List.mem_map.mp he
    exact le_rfl

lemma tail (h : Contiguous size (e :: l)) : Contiguous size l :=
  h.part (List.suffix_cons e l).isInfix

lemma dropLast (h : Contiguous size l) : Contiguous size l.dropLast :=
  h.part l.dropLast_prefix.isInfix

lemma cons (h : Contiguous size l) (hf : ∀ e' ∈ l.head?, Follows size e e')
    (ha : size ∣ e.1) (hu : e.2 ≤ size) : Contiguous size (e :: l) := by
  refine ⟨h.chain.cons hf, fun x hx => ?_, fun x hx => ?_⟩
  · rcases List.mem_cons.mp hx with rfl | hx
    · exact ha
    · exact h.aligned x hx
  · rcases List.mem_cons.mp hx with rfl | hx
    · exact hu
    · exact h.used_le x hx

lemma snoc (h : Contiguous size l) (hf : ∀ e ∈ l.getLast?, Follows size e e')
    (ha : size ∣ e'.1) (hu : e'.2 ≤ size) : Contiguous size (l ++ [e']) := by
  refine ⟨h.chain.append (.singleton e') fun x hx y hy => ?_, fun x hx => ?_, fun x hx => ?_⟩
  · simp only [List.head?_cons, Option.mem_some_iff] at hy
    exact hy ▸ hf x hx
  · rcases List.mem_append.mp hx with hx | hx
    · exact h.aligned x hx
    · exact List.mem_singleton.mp hx ▸ ha
  · rcases List.mem_append.mp hx with hx | hx
    · exact h.used_le x hx
    · exact List.mem_singleton.mp hx ▸ hu

/-- The use of the last block may change. -/
lemma setLast {a u u' : ℕ} (h : Contiguous size (l ++ [(a, u)])) (hu : u' ≤ size) :
    Contiguous size (l ++ [(a, u')]) := by
  have hl := h.part (List.prefix_append l _).isInfix
  refine hl.snoc (fun x hx => ?_) (h.aligned (a, u) (by simp)) hu
  exact (List.isChain_append.mp h.chain).2.2 x hx (a, u) (by simp)

lemma start_cons (h : Contiguous size (e :: l)) {i : ℕ} (hi : (e :: l)[i]? = some e') :
    e'.1 = e.1 + i * size := by
  induction l generalizing e i with
  | nil =>
    cases i with
    | zero => simp_all
    | succ i => simp at hi
  | cons e₂ l ih =>
    cases i with
    | zero => simp_all
    | succ i =>
      have hf := List.isChain_cons_cons.mp h.chain
      rw [List.getElem?_cons_succ] at hi
      rw [ih h.tail hi, hf.1.2]
      ring

/-- Every block but the last is used up. -/
lemma full (h : Contiguous size l) {i : ℕ} (hi : l[i]? = some e) (hlt : i + 1 < l.length) :
    e.2 = size := by
  have := (h.chain.getElem i hlt).1
  rw [List.getElem?_eq_getElem (by omega), Option.some.injEq] at hi
  exact hi ▸ this

/-- Where the list ends, counted from its first block. -/
lemma endOf_cons (h : Contiguous size (e :: l)) :
    ∃ u ≤ size, endOf (e :: l) = e.1 + l.length * size + u := by
  obtain ⟨last, hlast⟩ : ∃ last, (e :: l).getLast? = some last :=
    ⟨_, List.getLast?_eq_some_getLast (List.cons_ne_nil e l)⟩
  have hi : (e :: l)[l.length]? = some last := by
    rw [← hlast, List.getLast?_eq_getElem?]; rfl
  refine ⟨last.2, h.used_le last (List.mem_of_getElem? hi), ?_⟩
  rw [endOf, hlast]
  simp only
  rw [h.start_cons hi]

/-- A chain ends where its used lengths add up to. -/
lemma endOf_eq_sum (h : Contiguous size (e :: l)) :
    endOf (e :: l) = e.1 + ((e :: l).map Prod.snd).sum := by
  induction l generalizing e with
  | nil => simp [endOf]
  | cons e' l ih =>
    have hfollows := (List.isChain_cons_cons.mp h.chain).1
    have hend : endOf (e :: e' :: l) = endOf (e' :: l) := by
      simp [endOf, List.getLast?_cons_cons]
    rw [hend, ih h.tail, hfollows.2, List.map_cons (l := e' :: l), List.sum_cons, hfollows.1,
      Nat.add_assoc]

/-- **Lookup by division.** The block at the index by which an offset lies behind the first
block contains the offset. -/
lemma lookup_block (hpos : 0 < size) (h : Contiguous size (e :: l)) {o : ℕ} (hmin : e.1 ≤ o)
    (hmax : o < e.1 + (l.length + 1) * size) :
    e.1 / size ≤ o / size ∧ ∃ e', (e :: l)[o / size - e.1 / size]? = some e' ∧
      e'.1 ≤ o ∧ o < e'.1 + size := by
  obtain ⟨k, hk⟩ := h.aligned e (by simp)
  have hdiv : e.1 / size = k := by rw [hk, Nat.mul_div_cancel_left _ hpos]
  have hle : k ≤ o / size := by
    rw [Nat.le_div_iff_mul_le hpos, mul_comm, ← hk]; exact hmin
  -- the index is within the list
  have hlt : o / size < k + l.length + 1 := by
    rw [Nat.div_lt_iff_lt_mul hpos]
    calc o < e.1 + (l.length + 1) * size := hmax
      _ = (k + l.length + 1) * size := by rw [hk]; ring
  have hi : o / size - k < (e :: l).length := by
    rw [List.length_cons]; omega
  rw [hdiv]
  refine ⟨hle, (e :: l)[o / size - k], List.getElem?_eq_getElem hi, ?_⟩
  rw [h.start_cons (List.getElem?_eq_getElem hi), hk]
  have hsum : size * k + (o / size - k) * size = size * (o / size) := by
    rw [mul_comm (o / size - k), ← Nat.mul_add]
    congr 1
    omega
  have hmod := Nat.div_add_mod o size
  have := Nat.mod_lt o hpos
  omega

lemma lookup (hpos : 0 < size) (h : Contiguous size (e :: l)) {o : ℕ} (hmin : e.1 ≤ o)
    (hmax : o < endOf (e :: l)) :
    e.1 / size ≤ o / size ∧ ∃ e', (e :: l)[o / size - e.1 / size]? = some e' ∧
      e'.1 ≤ o ∧ o < e'.1 + size := by
  obtain ⟨u, hu, hend⟩ := h.endOf_cons
  refine h.lookup_block hpos hmin ?_
  rw [Nat.add_mul]
  omega

/-- A cut that lies before the first block removes every block. -/
lemma truncate_nil (hpos : 0 < size) {offset : ℕ} (h : Contiguous size (e :: l))
    (hlt : offset < e.1) : (e :: l).filterMap (truncate size offset) = [] := by
  rw [List.filterMap_eq_nil_iff]
  intro x hx
  obtain ⟨i, hi⟩ := List.getElem?_of_mem hx
  have := h.start_cons hi
  rw [truncate, if_pos (by omega), if_neg (by omega)]

/-- Cutting keeps a list contiguous, and the blocks that stay are the first ones. -/
lemma truncate_contiguous (hpos : 0 < size) (offset : ℕ) (h : Contiguous size l) :
    Contiguous size (l.filterMap (truncate size offset)) ∧
      ∀ x ∈ (l.filterMap (truncate size offset)).head?, ∀ e ∈ l.head?, x.1 = e.1 := by
  induction l with
  | nil => exact ⟨nil, by simp⟩
  | cons e l ih =>
    obtain ⟨ih1, ih2⟩ := ih h.tail
    rcases Nat.lt_or_ge offset e.1 with h1 | h1
    · rw [truncate_nil hpos h h1]
      exact ⟨nil, by simp⟩
    rcases Nat.lt_or_ge offset (e.1 + size) with h2 | h2
    · -- the cut lies in this block, the rest goes
      have hrest : l.filterMap (truncate size offset) = [] := by
        cases l with
        | nil => rfl
        | cons e₂ l =>
          have := (List.isChain_cons_cons.mp h.chain).1.2
          exact truncate_nil hpos h.tail (by omega)
      rw [List.filterMap_cons, truncate, if_pos h2, if_pos h1, hrest]
      refine ⟨nil.cons (by simp) (h.aligned e (by simp)) (Nat.mod_lt _ hpos).le, ?_⟩
      simp
    · rw [List.filterMap_cons, truncate, if_neg (by omega)]
      refine ⟨ih1.cons (fun x hx => ?_) (h.aligned e (by simp)) (h.used_le e (by simp)), ?_⟩
      · cases l with
        | nil => simp at hx
        | cons e₂ l =>
          have hf := (List.isChain_cons_cons.mp h.chain).1
          exact ⟨hf.1, by rw [ih2 x hx e₂ (by simp), hf.2]⟩
      · simp

/-- A cut within a block leaves of it what lies before the cut. -/
lemma truncate_within {offset : ℕ} (ha : size ∣ e.1) (hle : e.1 ≤ offset)
    (hlt : offset < e.1 + size) : truncate size offset e = some (e.1, offset - e.1) := by
  obtain ⟨k, hk⟩ := ha
  have hmod : offset % size = offset - e.1 := by
    rw [Nat.mod_eq_sub_div_mul, Nat.div_eq_of_lt_le (k := k)]
    · rw [hk, mul_comm]
    · rw [mul_comm, ← hk]; exact hle
    · rw [Nat.succ_mul, mul_comm, ← hk]; exact hlt
  rw [truncate, if_pos hlt, if_pos hle, hmod]

lemma truncate_cons_of_le {offset : ℕ} (h : e.1 + size ≤ offset) :
    (e :: l).filterMap (truncate size offset) = e :: l.filterMap (truncate size offset) := by
  rw [List.filterMap_cons, truncate, if_neg (by omega)]

/-- Cutting at an offset within the list ends the list there. -/
lemma endOf_truncate (hpos : 0 < size) {offset : ℕ} (h : Contiguous size (e :: l))
    (hmin : e.1 ≤ offset) (hmax : offset ≤ endOf (e :: l)) :
    (e :: l).filterMap (truncate size offset) ≠ [] ∧
      endOf ((e :: l).filterMap (truncate size offset)) = offset := by
  induction l generalizing e with
  | nil =>
    have hend : endOf [e] = e.1 + e.2 := rfl
    have hu := h.used_le e (by simp)
    rcases Nat.lt_or_ge offset (e.1 + size) with h1 | h1
    · rw [List.filterMap_cons, truncate_within (h.aligned e (by simp)) hmin h1]
      refine ⟨by simp, ?_⟩
      simp only [endOf, List.filterMap_nil, List.getLast?_singleton]
      omega
    · rw [truncate_cons_of_le h1]
      exact ⟨by simp, by simp only [List.filterMap_nil]; omega⟩
  | cons e₂ l ih =>
    have hf := (List.isChain_cons_cons.mp h.chain).1
    rcases Nat.lt_or_ge offset (e.1 + size) with h1 | h1
    · -- the cut lies in this block, the rest goes
      rw [List.filterMap_cons, truncate_within (h.aligned e (by simp)) hmin h1,
        truncate_nil hpos h.tail (by rw [hf.2]; exact h1)]
      refine ⟨by simp, ?_⟩
      simp only [endOf, List.getLast?_singleton]
      omega
    · obtain ⟨ih1, ih2⟩ := ih h.tail (by rw [hf.2]; exact h1)
        (by simpa only [endOf, List.getLast?_cons_cons] using hmax)
      rw [truncate_cons_of_le h1]
      refine ⟨by simp, ?_⟩
      obtain ⟨x, xs, hx⟩ := List.exists_cons_of_ne_nil ih1
      rw [hx] at ih2 ⊢
      simpa only [endOf, List.getLast?_cons_cons] using ih2

end Contiguous

end CloudMQ.Extents
