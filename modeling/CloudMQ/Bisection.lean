import Mathlib.Tactic

/-!
Bisection for the value nearest to a target in a sequence that does not fall.

Values are read where the search comes to, and a read may fail. A search ends with an index at which
the target stands, with the index the values cross the target at, or with a read that failed.
-/

namespace CloudMQ.Bisection

variable {T : Type*} [LinearOrder T]

inductive Outcome
  | missing (i : ℕ)
  | found (i : ℕ)
  /-- the value in front of the index is less, and the one at the index is greater -/
  | between (i : ℕ)
  deriving DecidableEq

/-- The middle of the indices from `lo` to `hi`, without `hi`. -/
def middle (lo hi : ℕ) : ℕ := (lo + (hi - 1)) / 2

lemma middle_lt {lo hi : ℕ} (h : lo < hi) : lo ≤ middle lo hi ∧ middle lo hi < hi := by
  unfold middle
  omega

def bisect (read : ℕ → Option T) (t : T) (lo hi : ℕ) : Outcome :=
  if h : lo < hi then
    match read (middle lo hi) with
    | none => .missing (middle lo hi)
    | some x =>
      if x = t then .found (middle lo hi)
      else if t < x then
        have := middle_lt h
        bisect read t lo (middle lo hi)
      else
        have := middle_lt h
        bisect read t (middle lo hi + 1) hi
  else .between lo
termination_by hi - lo

section Search

variable {read : ℕ → Option T} {t : T} {lo hi : ℕ}

/-- Values that are read do not fall. -/
def Ascending (read : ℕ → Option T) (lo hi : ℕ) : Prop :=
  ∀ i j, lo ≤ i → i ≤ j → j < hi → ∀ x ∈ read i, ∀ y ∈ read j, x ≤ y

lemma Ascending.part {lo' hi' : ℕ} (h : Ascending read lo hi) (hlo : lo ≤ lo') (hhi : hi' ≤ hi) :
    Ascending read lo' hi' :=
  fun i j hi hij hj => h i j (hlo.trans hi) hij (lt_of_lt_of_le hj hhi)

lemma bisect_empty (h : hi ≤ lo) : bisect read t lo hi = .between lo := by
  rw [bisect, dif_neg (by omega)]

lemma bisect_eq (h : lo < hi) : bisect read t lo hi =
    match read (middle lo hi) with
    | none => .missing (middle lo hi)
    | some x =>
      if x = t then .found (middle lo hi)
      else if t < x then bisect read t lo (middle lo hi)
      else bisect read t (middle lo hi + 1) hi := by
  rw [bisect, dif_pos h]

/-- What a search may end with. On both sides of where it ends, it has read a value, or there is
none. -/
def Ends (read : ℕ → Option T) (t : T) (lo hi : ℕ) : Outcome → Prop
  | .missing i => lo ≤ i ∧ i < hi ∧ read i = none
  | .found i => lo ≤ i ∧ i < hi ∧ read i = some t
  | .between k => lo ≤ k ∧ k ≤ hi ∧ (lo < k → ∃ x ∈ read (k - 1), x < t) ∧
      (k < hi → ∃ x ∈ read k, t < x)

/-- **Bisection.** -/
theorem bisect_ends (hle : lo ≤ hi) : Ends read t lo hi (bisect read t lo hi) := by
  induction hn : hi - lo using Nat.strong_induction_on generalizing lo hi with
  | h n ih =>
    by_cases hlt : lo < hi
    · obtain ⟨hlo, hhi⟩ := middle_lt hlt
      rw [bisect_eq hlt]
      cases hread : read (middle lo hi) with
      | none => exact ⟨hlo, hhi, hread⟩
      | some x =>
        simp only
        split_ifs with heq hbelow
        · exact ⟨hlo, hhi, by rw [hread, heq]⟩
        · have hends := ih _ (by omega) hlo rfl
          revert hends
          cases bisect read t lo (middle lo hi) with
          | missing i => exact fun ⟨h1, h2, h3⟩ => ⟨h1, h2.trans hhi, h3⟩
          | found i => exact fun ⟨h1, h2, h3⟩ => ⟨h1, h2.trans hhi, h3⟩
          | between k =>
            refine fun ⟨h1, h2, h3, h4⟩ => ⟨h1, h2.trans hhi.le, h3, fun _ => ?_⟩
            rcases h2.lt_or_eq with hk | rfl
            · exact h4 hk
            · exact ⟨x, hread, hbelow⟩
        · have habove : x < t := lt_of_le_of_ne (not_lt.mp hbelow) heq
          have hends := ih _ (by omega) hhi rfl
          revert hends
          cases bisect read t (middle lo hi + 1) hi with
          | missing i => exact fun ⟨h1, h2, h3⟩ => ⟨by omega, h2, h3⟩
          | found i => exact fun ⟨h1, h2, h3⟩ => ⟨by omega, h2, h3⟩
          | between k =>
            refine fun ⟨h1, h2, h3, h4⟩ => ⟨by omega, h2, fun _ => ?_, h4⟩
            rcases h1.lt_or_eq with hk | rfl
            · exact h3 hk
            · exact ⟨x, hread, habove⟩
    · rw [bisect_empty (Nat.le_of_not_lt hlt)]
      exact ⟨le_rfl, hle, fun h => absurd h (lt_irrefl _), fun h => absurd h hlt⟩

end Search

/-! ### A search that comes down to the first index -/

section Lowest

variable {read : ℕ → Option T} {t : T} {lo hi : ℕ}

/-- Of so many indices, the last one that a search looks at before it comes to the first; `0` when
it begins there. -/
def lowProbe (count : ℕ) : ℕ :=
  if (count - 1) / 2 ≤ 2 then (count - 1) / 2 else lowProbe ((count - 1) / 2)
termination_by count

lemma middle_eq (h : lo < hi) : middle lo hi = lo + (hi - lo - 1) / 2 := by
  unfold middle
  omega

lemma lowProbe_lt {count : ℕ} (h : 0 < count) : lowProbe count < count := by
  induction count using Nat.strong_induction_on with
  | h count ih =>
    rw [lowProbe]
    split
    · omega
    · have := ih ((count - 1) / 2) (by omega) (by omega)
      omega

lemma lowProbe_pos {count : ℕ} (h : 2 < count) : 0 < lowProbe count := by
  induction count using Nat.strong_induction_on with
  | h count ih =>
    rw [lowProbe]
    split
    · omega
    · exact ih ((count - 1) / 2) (by omega) (by omega)

/-- Where only the first read fails, a search comes to it exactly when it begins there, or when the
target is less than the value it looks at last. -/
theorem bisect_missing_iff (h : Ascending read lo hi) (hlt : lo < hi) (hnone : read lo = none)
    (hsome : ∀ i, lo < i → i < hi → (read i).isSome) :
    bisect read t lo hi = .missing lo ↔
      ∀ x ∈ read (lo + lowProbe (hi - lo)), t < x := by
  induction hn : hi - lo using Nat.strong_induction_on generalizing hi with
  | h n ih =>
    subst hn
    obtain ⟨hlo, hhi⟩ := middle_lt hlt
    have hmid := middle_eq hlt
    rw [bisect_eq hlt]
    by_cases hzero : (hi - lo - 1) / 2 = 0
    · have hprobe : lowProbe (hi - lo) = 0 := by
        rw [lowProbe, hzero, if_pos (by omega)]
      simp [hmid, hzero, hprobe, hnone]
    · have hmlt : lo < middle lo hi := by omega
      obtain ⟨x, hx⟩ := Option.isSome_iff_exists.mp (hsome _ hmlt hhi)
      simp only [hx]
      by_cases hbelow : t < x
      · -- the search goes on in front of the middle, and looks at the same index last
        rw [if_neg hbelow.ne', if_pos hbelow,
          ih _ (by omega) (h.part le_rfl hhi.le) hmlt
            (fun i h1 h2 => hsome i h1 (h2.trans hhi)) rfl]
        have hcount : middle lo hi - lo = (hi - lo - 1) / 2 := by omega
        rw [hcount]
        by_cases hsmall : (hi - lo - 1) / 2 ≤ 2
        · have hinner : lowProbe ((hi - lo - 1) / 2) = 0 := by
            rw [lowProbe, if_pos (by omega)]
            omega
          have houter : lowProbe (hi - lo) = (hi - lo - 1) / 2 := by rw [lowProbe, if_pos hsmall]
          rw [hinner, houter, ← hmid, hx, Nat.add_zero, hnone]
          simpa using hbelow
        · rw [lowProbe.eq_def (hi - lo), if_neg hsmall]
      · refine iff_of_false (fun hmissing => ?_) fun hall => ?_
        · rw [if_neg hbelow] at hmissing
          split at hmissing
          · exact absurd hmissing (by simp)
          · have hends := @bisect_ends _ _ read t (middle lo hi + 1) hi hhi
            rw [hmissing] at hends
            exact absurd hends.1 (by omega)
        · have hprobe : lowProbe (hi - lo) ≤ (hi - lo - 1) / 2 := by
            rw [lowProbe]
            split
            · exact le_rfl
            · exact (lowProbe_lt (by omega)).le
          have hpos : 0 < lowProbe (hi - lo) := lowProbe_pos (by omega)
          obtain ⟨y, hy⟩ := Option.isSome_iff_exists.mp
            (hsome (lo + lowProbe (hi - lo)) (by omega) (by omega))
          have hyx : y ≤ x := h _ _ (by omega) (by omega) hhi y hy x hx
          exact hbelow (lt_of_lt_of_le (hall y hy) hyx)

end Lowest

end CloudMQ.Bisection
