import Mathlib.Tactic

/-!
Runs of a deterministic machine driven by a list of actions, and what holds along them.

A step may be impossible in a state; a run is a list of steps that are all possible. `Meets`
says that every step of a run is taken in a state where a condition holds; an invariant that
such steps keep holds wherever such a run leads.
-/

namespace CloudMQ.Runs

variable {σ α : Type*} (step : σ → α → Option σ)

/-- The state a run ends in, when every step of it is possible. -/
def run : σ → List α → Option σ
  | s, [] => some s
  | s, a :: as => (step s a).bind fun s' => run s' as

/-- Every step of the run that is reached is taken where `ok` holds. -/
def Meets (ok : σ → α → Prop) : σ → List α → Prop
  | _, [] => True
  | s, a :: as => ok s a ∧ ∀ s', step s a = some s' → Meets ok s' as

variable {step} {ok : σ → α → Prop}

@[simp] lemma run_nil (s : σ) : run step s [] = some s := rfl

lemma run_cons {s t : σ} {a : α} {as : List α} :
    run step s (a :: as) = some t ↔ ∃ s', step s a = some s' ∧ run step s' as = some t :=
  Option.bind_eq_some_iff

lemma run_append {s t : σ} {as bs : List α} :
    run step s (as ++ bs) = some t ↔ ∃ s', run step s as = some s' ∧ run step s' bs = some t := by
  induction as generalizing s with
  | nil => simp
  | cons a as ih =>
    rw [List.cons_append, run_cons]
    constructor
    · rintro ⟨s₁, h1, h2⟩
      obtain ⟨s₂, h3, h4⟩ := ih.mp h2
      exact ⟨s₂, run_cons.mpr ⟨s₁, h1, h3⟩, h4⟩
    · rintro ⟨s₂, h1, h2⟩
      obtain ⟨s₁, h3, h4⟩ := run_cons.mp h1
      exact ⟨s₁, h3, ih.mpr ⟨s₂, h4, h2⟩⟩

lemma Meets.cons {s s' : σ} {a : α} {as : List α} (hs : step s a = some s') (hok : ok s a)
    (h : Meets step ok s' as) : Meets step ok s (a :: as) := by
  refine ⟨hok, fun s'' h' => ?_⟩
  rw [hs, Option.some.injEq] at h'
  exact h' ▸ h

/-- The rest of a run meets the condition from the state it is reached in. -/
lemma Meets.append {s t : σ} {as bs : List α} (h : Meets step ok s (as ++ bs))
    (hr : run step s as = some t) : Meets step ok s as ∧ Meets step ok t bs := by
  induction as generalizing s with
  | nil =>
    simp only [run_nil, Option.some.injEq] at hr
    subst hr
    exact ⟨trivial, h⟩
  | cons a as ih =>
    obtain ⟨s', h1, h2⟩ := run_cons.mp hr
    obtain ⟨hok, hrest⟩ := h
    obtain ⟨-, h4⟩ := ih (hrest s' h1) h2
    refine ⟨⟨hok, fun s'' h5 => ?_⟩, h4⟩
    rw [h1, Option.some.injEq] at h5
    subst h5
    exact (ih (hrest s' h1) h2).1

/-- Two runs that meet the condition, one behind the other. -/
lemma Meets.concat {s t : σ} {as bs : List α} (h : Meets step ok s as)
    (hr : run step s as = some t) (h' : Meets step ok t bs) : Meets step ok s (as ++ bs) := by
  induction as generalizing s with
  | nil =>
    simp only [run_nil, Option.some.injEq] at hr
    exact hr ▸ h'
  | cons a as ih =>
    obtain ⟨s', h1, h2⟩ := run_cons.mp hr
    refine ⟨h.1, fun s'' h3 => ?_⟩
    rw [h1, Option.some.injEq] at h3
    exact h3 ▸ ih (h.2 s' h1) h2

lemma Meets.mono {ok' : σ → α → Prop} {s : σ} {as : List α} (h : Meets step ok s as)
    (himp : ∀ s a, ok s a → ok' s a) : Meets step ok' s as := by
  induction as generalizing s with
  | nil => trivial
  | cons a as ih => exact ⟨himp s a h.1, fun s' hs => ih (h.2 s' hs)⟩

lemma Meets.and {ok' : σ → α → Prop} {s : σ} {as : List α} (h : Meets step ok s as)
    (h' : Meets step ok' s as) : Meets step (fun s a => ok s a ∧ ok' s a) s as := by
  induction as generalizing s with
  | nil => trivial
  | cons a as ih => exact ⟨⟨h.1, h'.1⟩, fun s' hs => ih (h.2 s' hs) (h'.2 s' hs)⟩

/-- **Invariants of runs.** What one step keeps, a run keeps. -/
theorem run_invariant {Inv : σ → Prop}
    (hstep : ∀ s a s', Inv s → ok s a → step s a = some s' → Inv s')
    {s t : σ} {as : List α} (h0 : Inv s) (hm : Meets step ok s as)
    (hr : run step s as = some t) : Inv t := by
  induction as generalizing s with
  | nil =>
    simp only [run_nil, Option.some.injEq] at hr
    exact hr ▸ h0
  | cons a as ih =>
    obtain ⟨s', h1, h2⟩ := run_cons.mp hr
    exact ih (hstep s a s' h0 hm.1 h1) (hm.2 s' h1) h2

lemma Meets.of_forall (hok : ∀ s a, ok s a) (s : σ) (as : List α) : Meets step ok s as := by
  induction as generalizing s with
  | nil => trivial
  | cons a as ih => exact ⟨hok s a, fun s' _ => ih s'⟩

/-- An invariant that every step keeps. -/
theorem run_inductive {Inv : σ → Prop} (hstep : ∀ s a s', Inv s → step s a = some s' → Inv s')
    {s t : σ} {as : List α} (h0 : Inv s) (hr : run step s as = some t) : Inv t :=
  run_invariant (fun s a s' h _ hs => hstep s a s' h hs) h0
    (Meets.of_forall (fun _ _ => trivial) s as) hr

/-- **When a property holds all along a run.** Where the condition is exactly what a step needs to
keep the property, the property holds in every state reached if and only if every step meets the
condition. -/
theorem holds_along_iff {Inv P : σ → Prop}
    (hstep : ∀ s a s', Inv s → ok s a → step s a = some s' → Inv s') (hP : ∀ s, Inv s → P s)
    (hconv : ∀ s a, Inv s → (∀ s', step s a = some s' → P s') → ok s a) {s : σ} {as : List α}
    (h0 : Inv s) :
    (∀ as', as' <+: as → ∀ t, run step s as' = some t → P t) ↔ Meets step ok s as := by
  constructor
  · intro h
    induction as generalizing s with
    | nil => trivial
    | cons a as ih =>
      have hok : ok s a := hconv s a h0 fun s' hs =>
        h [a] ⟨as, rfl⟩ s' (run_cons.mpr ⟨s', hs, rfl⟩)
      refine ⟨hok, fun s' hs => ih (hstep s a s' h0 hok hs) fun as' hpre t ht => ?_⟩
      exact h (a :: as') ((List.cons_prefix_cons).mpr ⟨rfl, hpre⟩) t (run_cons.mpr ⟨s', hs, ht⟩)
  · rintro hm as' ⟨rest, rfl⟩ t ht
    exact hP t (run_invariant hstep h0 (hm.append ht).1 ht)

/-- A quantity that no step lowers is not lower at the end of a run. -/
theorem run_monotone {Inv : σ → Prop} {β : Type*} [Preorder β] (f : σ → β)
    (hstep : ∀ s a s', Inv s → ok s a → step s a = some s' → Inv s' ∧ f s ≤ f s')
    {s t : σ} {as : List α} (h0 : Inv s) (hm : Meets step ok s as)
    (hr : run step s as = some t) : f s ≤ f t := by
  induction as generalizing s with
  | nil =>
    simp only [run_nil, Option.some.injEq] at hr
    exact hr ▸ le_rfl
  | cons a as ih =>
    obtain ⟨s', h1, h2⟩ := run_cons.mp hr
    obtain ⟨h3, h4⟩ := hstep s a s' h0 hm.1 h1
    exact h4.trans (ih h3 (hm.2 s' h1) h2)

/-- `Meets`, for a condition that is decided by a function. -/
def checks (step : σ → α → Option σ) (ok : σ → α → Bool) : σ → List α → Bool
  | _, [] => true
  | s, a :: as => ok s a && (step s a).all fun s' => checks step ok s' as

/-- The function may decide the condition only where an invariant of the run holds. -/
lemma meets_of_checks_of_inv {okb : σ → α → Bool} {Inv : σ → Prop}
    (hstep : ∀ s a s', Inv s → ok s a → step s a = some s' → Inv s')
    (hok : ∀ s a, Inv s → okb s a → ok s a) {s : σ} (h0 : Inv s) {as : List α}
    (h : checks step okb s as) : Meets step ok s as := by
  induction as generalizing s with
  | nil => trivial
  | cons a as ih =>
    rw [checks, Bool.and_eq_true] at h
    have hthis := hok s a h0 h.1
    refine ⟨hthis, fun s' hs => ih (hstep s a s' h0 hthis hs) ?_⟩
    simpa [hs] using h.2

lemma meets_of_checks {okb : σ → α → Bool} (hok : ∀ s a, okb s a → ok s a) {s : σ}
    {as : List α} (h : checks step okb s as) : Meets step ok s as :=
  meets_of_checks_of_inv (fun _ _ _ (_ : True) _ _ => trivial)
    (fun s a _ => hok s a) trivial h

end CloudMQ.Runs
