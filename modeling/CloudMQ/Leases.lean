import CloudMQ.Lists
import CloudMQ.Runs

/-!
Leases: a server gives a thing to one holder for a limited time, and holders believe for a shorter
time that they have it.

The server grants and renews; a grant is learnt later, if at all, and a holder that learns of it
goes by its own clock from then on. As long as grants are not learnt too late, and nobody gives
back what it believes to have, there are no two holders that both believe.
-/

namespace CloudMQ.Leases

open CloudMQ.Lists CloudMQ.Runs

/-- What somebody believes about having the thing: that it has it, and since when. -/
structure Belief (C : Type*) where
  client : C
  active : Bool
  since : ℤ

/-- `holder` is the one that has the thing, with the time of the last renewal; `grants` are those
that can still be learnt. -/
@[ext] structure Lease (C ι : Type*) where
  now : ℤ
  holder : Option (C × ℤ)
  grants : ι → Option (C × ℤ)
  beliefs : List (Belief C)

inductive Op (C ι : Type*)
  | tick (n : ℕ)
  | renew
  | grant (i : ι) (c : C)
  /-- the thing is given back, and earlier grants are not learnt any more -/
  | release (c : C)
  | believe (c : C)
  | activate (i : ι) (k : ℕ)
  | confirm (i : ι) (k : ℕ)
  | deactivate (k : ℕ)

/-- A belief is held for so long. -/
def Belief.Valid {C : Type*} (trust : ℕ) (now : ℤ) (b : Belief C) : Prop :=
  b.active ∧ now - b.since ≤ trust

instance {C : Type*} (trust : ℕ) (now : ℤ) (b : Belief C) : Decidable (b.Valid trust now) :=
  inferInstanceAs (Decidable (_ ∧ _))

namespace Lease

variable {C ι : Type*} (life trust : ℕ)

/-- Nobody has the thing, or the same one, or its time is over. -/
def Free (l : Lease C ι) (c : C) : Prop := ∀ h ∈ l.holder, h.1 = c ∨ (life : ℤ) < l.now - h.2

instance [DecidableEq C] (l : Lease C ι) (c : C) : Decidable (l.Free life c) :=
  inferInstanceAs (Decidable (∀ h ∈ l.holder, _))

/-- The grant is learnt in time, by the one that it was made to. -/
def InTime (l : Lease C ι) (i : ι) (k : ℕ) : Prop :=
  ∃ g ∈ l.grants i, ∃ b ∈ l.beliefs[k]?, b.client = g.1 ∧ l.now - g.2 ≤ (life : ℤ) - trust

instance [DecidableEq C] (l : Lease C ι) (i : ι) (k : ℕ) : Decidable (l.InTime life trust i k) :=
  decidable_of_iff ((l.grants i).any fun g => (l.beliefs[k]?).any fun b =>
    decide (b.client = g.1 ∧ l.now - g.2 ≤ (life : ℤ) - trust)) (by
    simp [InTime, Option.any_eq_true])

def tick (l : Lease C ι) (n : ℕ) : Lease C ι := { l with now := l.now + n }

def renew (l : Lease C ι) : Lease C ι := { l with holder := l.holder.map fun h => (h.1, l.now) }

def grant [DecidableEq ι] (l : Lease C ι) (i : ι) (c : C) : Lease C ι :=
  { l with holder := some (c, l.now), grants := Function.update l.grants i (some (c, l.now)) }

def release [DecidableEq C] (l : Lease C ι) (c : C) : Lease C ι :=
  { l with holder := l.holder.filter fun h => h.1 ≠ c
           grants := fun i => (l.grants i).filter fun g => g.1 ≠ c }

def believe (l : Lease C ι) (c : C) : Lease C ι :=
  { l with beliefs := l.beliefs ++ [⟨c, false, l.now⟩] }

def modify (l : Lease C ι) (k : ℕ) (f : Belief C → Belief C) : Lease C ι :=
  { l with beliefs := l.beliefs.modify k f }

def step [DecidableEq C] [DecidableEq ι] (l : Lease C ι) : Op C ι → Option (Lease C ι)
  | .tick n => some (l.tick n)
  | .renew => some l.renew
  | .grant i c => if l.Free life c then some (l.grant i c) else none
  | .release c =>
    if ∀ b ∈ l.beliefs, b.client = c → ¬ b.Valid trust l.now then some (l.release c) else none
  | .believe c => some (l.believe c)
  | .activate i k =>
    if l.InTime life trust i k then some (l.modify k fun b => { b with active := true }) else none
  | .confirm i k =>
    if l.InTime life trust i k then some (l.modify k fun b => { b with since := l.now }) else none
  | .deactivate k => some (l.modify k fun b => { b with active := false })

def new (now : ℤ) : Lease C ι := ⟨now, none, fun _ => none, []⟩

/-! ### The invariant -/

/-- The holder is this one, and its time does not end before the other. -/
def Covers (l : Lease C ι) (c : C) (u : ℤ) : Prop := ∃ t, l.holder = some (c, t) ∧ u ≤ t + life

structure Inv (l : Lease C ι) : Prop where
  holder : ∀ h ∈ l.holder, h.2 ≤ l.now
  granted : ∀ i, ∀ g ∈ l.grants i, g.2 ≤ l.now
  grants : ∀ i, ∀ g ∈ l.grants i, l.now ≤ g.2 + life → l.Covers life g.1 (g.2 + life)
  since : ∀ b ∈ l.beliefs, b.since ≤ l.now
  beliefs : ∀ b ∈ l.beliefs, b.Valid trust l.now → l.Covers life b.client (b.since + trust)

variable {life trust} {l l' : Lease C ι} {c : C}

lemma inv_new (now : ℤ) : Inv life trust (new now : Lease C ι) := by
  constructor <;> simp [new]

lemma Belief.Valid.now_le {b : Belief C} {now : ℤ} (h : b.Valid trust now) :
    now ≤ b.since + trust := by
  have := h.2
  omega

lemma Covers.mono {u u' : ℤ} (h : l.Covers life c u) (hle : u' ≤ u) : l.Covers life c u' := by
  obtain ⟨t, ht, hu⟩ := h
  exact ⟨t, ht, hle.trans hu⟩

/-- Nobody else gets the thing while it is covered. -/
lemma Covers.eq_of_free {u : ℤ} {c' : C} (h : l.Covers life c u) (hnow : l.now ≤ u)
    (hfree : l.Free life c') : c = c' := by
  obtain ⟨t, ht, hu⟩ := h
  rcases hfree _ ht with heq | hlt
  · exact heq
  · dsimp only at hlt
    omega

/-- What is covered stays covered when the holder renews. -/
lemma Covers.renewed {u : ℤ} (h : l.Covers life c u) (hinv : Inv life trust l)
    (hholder : l'.holder = some (c, l.now)) : l'.Covers life c u := by
  obtain ⟨t, ht, hu⟩ := h
  have htnow : t ≤ l.now := hinv.holder _ ht
  exact ⟨l.now, hholder, by omega⟩

/-- **Exclusion.** Those who believe to have the thing are the same one. -/
lemma Inv.exclusive (h : Inv life trust l) {b b' : Belief C} (hb : b ∈ l.beliefs)
    (hb' : b' ∈ l.beliefs) (hv : b.Valid trust l.now) (hv' : b'.Valid trust l.now) :
    b.client = b'.client := by
  obtain ⟨t, ht, -⟩ := h.beliefs b hb hv
  obtain ⟨t', ht', -⟩ := h.beliefs b' hb' hv'
  rw [ht, Option.some.injEq, Prod.mk.injEq] at ht'
  exact ht'.1

/-! ### Every step keeps it -/

lemma Inv.tick (h : Inv life trust l) (n : ℕ) : Inv life trust (l.tick n) where
  holder hd hhd := (h.holder hd hhd).trans (Int.le_add_of_nonneg_right (Int.natCast_nonneg n))
  granted i g hg := (h.granted i g hg).trans (Int.le_add_of_nonneg_right (Int.natCast_nonneg n))
  grants i g hg hle := h.grants i g hg (by dsimp only [Lease.tick] at hle; omega)
  since b hb := (h.since b hb).trans (Int.le_add_of_nonneg_right (Int.natCast_nonneg n))
  beliefs b hb hv := h.beliefs b hb ⟨hv.1, by have := hv.2; dsimp only [Lease.tick] at this; omega⟩

/-- The holder has the thing for longer than anybody could know. -/
lemma Inv.renew (h : Inv life trust l) : Inv life trust l.renew := by
  have hcovers : ∀ c u, l.Covers life c u → l.renew.Covers life c u := by
    intro c u hc
    obtain ⟨t, ht, -⟩ := id hc
    exact hc.renewed h (by simp [Lease.renew, ht])
  refine ⟨fun hd hhd => ?_, h.granted, fun i g hg hle => hcovers _ _ (h.grants i g hg hle), h.since,
    fun b hb hv => hcovers _ _ (h.beliefs b hb hv)⟩
  obtain ⟨hd', -, rfl⟩ := Option.map_eq_some_iff.mp hhd
  exact le_refl l.now

lemma Inv.grant [DecidableEq ι] (h : Inv life trust l) {i : ι} (hfree : l.Free life c) :
    Inv life trust (l.grant i c) := by
  have hcovers : ∀ c' u, l.Covers life c' u → l.now ≤ u → (l.grant i c).Covers life c' u := by
    intro c' u hc' hu
    obtain rfl := hc'.eq_of_free hu hfree
    exact hc'.renewed h rfl
  have hgrants : ∀ j, ∀ g ∈ (l.grant i c).grants j, g = (c, l.now) ∨ g ∈ l.grants j := by
    intro j g hg
    by_cases hj : j = i
    · subst hj
      simp only [Lease.grant, Function.update_self, Option.mem_some_iff] at hg
      exact .inl hg.symm
    · simp only [Lease.grant, Function.update_of_ne hj] at hg
      exact .inr hg
  refine ⟨fun hd hhd => ?_, fun j g hg => ?_, fun j g hg hle => ?_, h.since,
    fun b hb hv => hcovers _ _ (h.beliefs b hb hv) (Belief.Valid.now_le hv)⟩
  · obtain rfl := Option.some.inj hhd
    exact le_refl l.now
  · rcases hgrants j g hg with rfl | hg
    · exact le_refl l.now
    · exact h.granted j g hg
  · rcases hgrants j g hg with rfl | hg
    · exact ⟨l.now, rfl, le_refl _⟩
    · exact hcovers _ _ (h.grants j g hg hle) hle

/-- Whoever gives the thing back does not believe to have it. -/
lemma Inv.release [DecidableEq C] (h : Inv life trust l)
    (hnone : ∀ b ∈ l.beliefs, b.client = c → ¬ b.Valid trust l.now) :
    Inv life trust (l.release c) := by
  have hcovers : ∀ c' u, l.Covers life c' u → c' ≠ c → (l.release c).Covers life c' u := by
    rintro c' u ⟨t, ht, hu⟩ hne
    exact ⟨t, by simp [Lease.release, ht, hne], hu⟩
  refine ⟨fun hd hhd => ?_, fun i g hg => ?_, fun i g hg hle => ?_, h.since, fun b hb hv => ?_⟩
  · exact h.holder hd (Option.mem_filter_iff.mp hhd).1
  · exact h.granted i g (Option.mem_filter_iff.mp hg).1
  · obtain ⟨hg, hne⟩ := Option.mem_filter_iff.mp hg
    exact hcovers _ _ (h.grants i g hg hle) (by simpa using hne)
  · exact hcovers _ _ (h.beliefs b hb hv) fun heq => hnone b hb heq hv

lemma Inv.believe (h : Inv life trust l) : Inv life trust (l.believe c) := by
  have hmem : ∀ b ∈ (l.believe c).beliefs, b ∈ l.beliefs ∨ b = ⟨c, false, l.now⟩ := by
    intro b hb
    simpa [Lease.believe] using hb
  refine ⟨h.holder, h.granted, h.grants, fun b hb => ?_, fun b hb hv => ?_⟩
  · rcases hmem b hb with hb | rfl
    · exact h.since b hb
    · exact le_refl l.now
  · rcases hmem b hb with hb | rfl
    · exact h.beliefs b hb hv
    · exact absurd hv.1 (by simp)

/-- A belief may change as long as what it says then is covered. -/
lemma Inv.modify (h : Inv life trust l) {k : ℕ} {f : Belief C → Belief C}
    (hf : ∀ b, l.beliefs[k]? = some b → (f b).since ≤ l.now ∧
      ((f b).Valid trust l.now → l.Covers life (f b).client ((f b).since + trust))) :
    Inv life trust (l.modify k f) := by
  refine ⟨h.holder, h.granted, h.grants, fun b hb => ?_, fun b hb hv => ?_⟩
  · rcases mem_modify_cases hb with hb | ⟨b', hb', rfl⟩
    · exact h.since b hb
    · exact (hf b' hb').1
  · rcases mem_modify_cases hb with hb | ⟨b', hb', rfl⟩
    · exact h.beliefs b hb hv
    · exact (hf b' hb').2 hv

/-- What was granted in time is covered for longer than it is believed. -/
lemma Inv.covers_of_inTime (h : Inv life trust l) {i : ι} {k : ℕ} (htime : l.InTime life trust i k)
    {b : Belief C} (hb : l.beliefs[k]? = some b) : l.Covers life b.client (l.now + trust) := by
  obtain ⟨g, hg, b', hb', hclient, hle⟩ := htime
  rw [Option.mem_def, hb, Option.some.injEq] at hb'
  subst hb'
  rw [hclient]
  exact (h.grants i g hg (by omega)).mono (by omega)

variable [DecidableEq C] [DecidableEq ι]

lemma inv_step {op : Op C ι} (h : Inv life trust l) (hs : step life trust l op = some l') :
    Inv life trust l' := by
  cases op with
  | tick n => exact Option.some.inj hs ▸ h.tick n
  | renew => exact Option.some.inj hs ▸ h.renew
  | grant i c =>
    rw [step, Option.ite_none_right_eq_some, Option.some.injEq] at hs
    exact hs.2 ▸ h.grant hs.1
  | release c =>
    rw [step, Option.ite_none_right_eq_some, Option.some.injEq] at hs
    exact hs.2 ▸ h.release hs.1
  | believe c => exact Option.some.inj hs ▸ h.believe
  | activate i k =>
    rw [step, Option.ite_none_right_eq_some, Option.some.injEq] at hs
    obtain ⟨htime, rfl⟩ := hs
    refine h.modify fun b hb => ?_
    have hsince := h.since b (List.mem_of_getElem? hb)
    exact ⟨hsince, fun _ => (h.covers_of_inTime htime hb).mono (by dsimp only; omega)⟩
  | confirm i k =>
    rw [step, Option.ite_none_right_eq_some, Option.some.injEq] at hs
    obtain ⟨htime, rfl⟩ := hs
    refine h.modify fun b hb => ?_
    have hcovers := h.covers_of_inTime htime hb
    exact ⟨le_refl l.now, fun _ => hcovers⟩
  | deactivate k =>
    obtain rfl := Option.some.inj hs
    refine h.modify fun b hb => ⟨h.since b (List.mem_of_getElem? hb), fun hv => ?_⟩
    exact absurd hv.1 (by simp)

/-- **Leases exclude each other** in every run. -/
theorem run_exclusive {ops : List (Op C ι)} {now : ℤ}
    (hr : run (step life trust) (new now) ops = some l) {b b' : Belief C} (hb : b ∈ l.beliefs)
    (hb' : b' ∈ l.beliefs) (hv : b.Valid trust l.now) (hv' : b'.Valid trust l.now) :
    b.client = b'.client :=
  (run_inductive (fun _ _ _ h hs => inv_step h hs) (inv_new now) hr).exclusive hb hb' hv hv'

end Lease

end CloudMQ.Leases
