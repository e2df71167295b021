import CloudMQ.Runs

/-!
Services with two request lists: `DispatchMessageService`, `GroupCommitService` and
`GroupTransferService`.

Callers add to one list under the lock of the service; the service thread exchanges the lists
when `waitForRunning` ends, goes through the other list, and clears it. The list is cleared only
when the pass ends. A pass that throws leaves it as it is, and the next exchange makes it the
list the callers add to. Two of the services make a last exchange and a last pass after they
were stopped.
-/

namespace CloudMQ.ServiceThread

open CloudMQ.Runs

inductive Service | DispatchMessageService | GroupCommitService | GroupTransferService
  deriving DecidableEq, Repr

/-- Does `run` exchange the lists once more behind its loop? -/
def Service.finalPass : Service → Bool
  | .DispatchMessageService => true
  | .GroupCommitService => true
  | .GroupTransferService => false

/-- Where the service thread stands. -/
inductive Pc
  /-- before the test of `isStoped` -/
  | top
  /-- at the entry of `waitForRunning` -/
  | enter
  /-- in `wait` -/
  | waiting
  /-- in the loop over `requestsRead`, at an index -/
  | pass (i : ℕ)
  /-- behind the loop of `run`, before the last exchange -/
  | last
  | lastPass (i : ℕ)
  | ended
  deriving DecidableEq, Repr

/-- The lists, the flags of `ServiceThread`, and what has happened so far: the requests in the
order in which they were put and in the order in which they were processed. -/
structure State (α : Type) where
  requestsWrite : List α
  requestsRead : List α
  hasNotified : Bool
  stoped : Bool
  pc : Pc
  arrived : List α
  processed : List α
  deriving DecidableEq

variable {α : Type}

def State.started : State α := ⟨[], [], false, false, .top, [], []⟩

namespace State

variable (s : State α)

def swapRequests : State α :=
  { s with requestsWrite := s.requestsRead, requestsRead := s.requestsWrite }

/-- `putRequest`. -/
def putRequest (r : α) : State α :=
  { s with requestsWrite := s.requestsWrite ++ [r], hasNotified := true,
           arrived := s.arrived ++ [r] }

/-- The end of `waitForRunning`, with or without having waited. -/
def onWaitEnd : State α := { s.swapRequests with hasNotified := false, pc := .pass 0 }

/-- One request of the pass, or the end of the pass. -/
def process (i : ℕ) (next : ℕ → Pc) (done : Pc) : State α :=
  match s.requestsRead[i]? with
  | some r => { s with processed := s.processed ++ [r], pc := next (i + 1) }
  | none => { s with requestsRead := [], pc := done }

/-- One step of the service thread; `none` while it waits and nobody has notified it. -/
def runStep (svc : Service) : Option (State α) :=
  match s.pc with
  | .top =>
    if s.stoped then
      if svc.finalPass then some { s with pc := .last } else some { s with pc := .ended }
    else some { s with pc := .enter }
  | .enter => if s.hasNotified then some s.onWaitEnd else some { s with pc := .waiting }
  | .waiting => if s.hasNotified then some s.onWaitEnd else none
  | .pass i => some (s.process i .pass .top)
  | .last => some { s.swapRequests with pc := .lastPass 0 }
  | .lastPass i => some (s.process i .lastPass .ended)
  | .ended => none

/-- An exception: inside the loop it is caught, behind the loop it ends the thread. -/
def throw : Option (State α) :=
  match s.pc with
  | .pass _ => some { s with pc := .top }
  | .lastPass _ => some { s with pc := .ended }
  | _ => none

end State

inductive Action (α : Type)
  | putRequest (r : α)
  /-- `wakeup` -/
  | wakeup
  /-- `shutdown`, `stop` -/
  | stop
  | run
  /-- `wait` ends without a notification -/
  | spurious
  | throw

def step (svc : Service) (s : State α) : Action α → Option (State α)
  | .putRequest r => some (s.putRequest r)
  | .wakeup => some { s with hasNotified := true }
  | .stop => some { s with stoped := true, hasNotified := true }
  | .run => s.runStep svc
  | .spurious => if s.pc = .waiting then some s.onWaitEnd else none
  | .throw => s.throw

/-! ### The invariant -/

/-- The lists are exchanged for the last time. -/
def Pc.closing : Pc → Bool
  | .lastPass _ => true
  | .ended => true
  | _ => false

/-- No pass throws; nothing is put after the last exchange; a service without a last pass leaves
its loop only when nothing waits. -/
def Allowed (svc : Service) (s : State α) : Action α → Prop
  | .putRequest _ => s.pc.closing = false
  | .run => s.pc = .top → s.stoped → svc.finalPass = false → s.requestsWrite = []
  | .throw => False
  | _ => True

/-- What is left of the current pass. -/
def State.pending (s : State α) : List α :=
  match s.pc with
  | .pass i => s.requestsRead.drop i
  | .lastPass i => s.requestsRead.drop i
  | _ => s.requestsRead

structure Inv (s : State α) : Prop where
  conserved : s.arrived = s.processed ++ s.pending ++ s.requestsWrite
  notified : s.requestsWrite ≠ [] → s.hasNotified
  cleared : (∀ i, s.pc ≠ .pass i) → (∀ i, s.pc ≠ .lastPass i) → s.requestsRead = []
  closed : s.pc.closing → s.requestsWrite = []

lemma inv_started : Inv (State.started : State α) :=
  ⟨rfl, by simp [State.started], fun _ _ => rfl, by simp [State.started]⟩

variable {svc : Service} {s s' : State α}

/-- The exchange, at a place where the last pass is over. -/
lemma Inv.onWaitEnd (h : Inv s) (hpass : ∀ i, s.pc ≠ .pass i) (hlast : ∀ i, s.pc ≠ .lastPass i) :
    Inv s.onWaitEnd := by
  have hread := h.cleared hpass hlast
  have hpend : s.pending = s.requestsRead := by
    unfold State.pending
    split
    · next i hi => exact absurd hi (hpass i)
    · next i hi => exact absurd hi (hlast i)
    · rfl
  have hcons := h.conserved
  rw [hpend, hread, List.append_nil] at hcons
  refine ⟨?_, ?_, ?_, ?_⟩
  · simp [State.onWaitEnd, State.swapRequests, State.pending, hread, hcons]
  · simp [State.onWaitEnd, State.swapRequests, hread]
  · intro hp _
    exact absurd rfl (hp 0)
  · intro _
    exact hread

/-- One request moves from what is pending to what is processed. -/
lemma drop_of_getElem? {l : List α} {i : ℕ} {r : α} (h : l[i]? = some r) :
    l.drop i = r :: l.drop (i + 1) := by
  obtain ⟨hi, rfl⟩ := List.getElem?_eq_some_iff.mp h
  exact List.drop_eq_getElem_cons hi

lemma drop_of_getElem?_none {l : List α} {i : ℕ} (h : l[i]? = none) : l.drop i = [] :=
  List.drop_of_length_le (List.getElem?_eq_none_iff.mp h)

lemma step_inv {a : Action α} (h : Inv s) (hok : Allowed svc s a) (hs : step svc s a = some s') :
    Inv s' := by
  cases a with
  | putRequest r =>
    simp only [step, Option.some.injEq] at hs
    subst hs
    refine ⟨?_, fun _ => rfl, h.cleared, fun hc => ?_⟩
    · have hcons := h.conserved
      simp only [State.putRequest, State.pending] at hcons ⊢
      rw [hcons]
      simp only [List.append_assoc]
    · have hopen : s.pc.closing = false := hok
      exact absurd hc (by simp [State.putRequest, hopen])
  | wakeup =>
    simp only [step, Option.some.injEq] at hs
    subst hs
    exact ⟨h.conserved, fun _ => rfl, h.cleared, h.closed⟩
  | stop =>
    simp only [step, Option.some.injEq] at hs
    subst hs
    exact ⟨h.conserved, fun _ => rfl, h.cleared, h.closed⟩
  | spurious =>
    simp only [step] at hs
    split at hs
    · next hpc =>
      cases hs
      exact h.onWaitEnd (by simp [hpc]) (by simp [hpc])
    · exact absurd hs (by simp)
  | throw => exact absurd hok (by simp [Allowed])
  | run =>
    simp only [step, State.runStep] at hs
    have hcons := h.conserved
    have hnot := h.notified
    have hclr := h.cleared
    have hcls := h.closed
    cases hpc : s.pc with
    | top =>
      simp only [hpc, State.pending] at hs hcons hclr
      have hread := hclr (by simp) (by simp)
      split at hs
      · next hstop =>
        split at hs
        · cases hs
          exact ⟨hcons, hnot, fun _ _ => hread, by simp [Pc.closing]⟩
        · next hfinal =>
          cases hs
          have hnil : s.requestsWrite = [] := hok hpc hstop (by simpa using hfinal)
          exact ⟨hcons, hnot, fun _ _ => hread, fun _ => hnil⟩
      · cases hs
        exact ⟨hcons, hnot, fun _ _ => hread, by simp [Pc.closing]⟩
    | enter =>
      simp only [hpc] at hs
      split at hs
      · cases hs
        exact h.onWaitEnd (by simp [hpc]) (by simp [hpc])
      · cases hs
        simp only [hpc, State.pending] at hcons hclr
        exact ⟨hcons, hnot, fun _ _ => hclr (by simp) (by simp), by simp [Pc.closing]⟩
    | waiting =>
      simp only [hpc] at hs
      split at hs
      · cases hs
        exact h.onWaitEnd (by simp [hpc]) (by simp [hpc])
      · exact absurd hs (by simp)
    | pass i =>
      simp only [hpc, State.pending, Option.some.injEq] at hs hcons
      subst hs
      unfold State.process
      split
      · next r hr =>
        refine ⟨?_, hnot, fun hp _ => absurd rfl (hp (i + 1)), by simp [Pc.closing]⟩
        simp only [State.pending]
        rw [hcons, drop_of_getElem? hr]
        simp
      · next hr =>
        refine ⟨?_, hnot, fun _ _ => rfl, by simp [Pc.closing]⟩
        simp only [State.pending]
        rw [hcons, drop_of_getElem?_none hr]
    | last =>
      simp only [hpc, State.pending, Option.some.injEq] at hs hcons hclr
      subst hs
      have hread := hclr (by simp) (by simp)
      refine ⟨?_, ?_, fun _ hp => absurd rfl (hp 0), fun _ => hread⟩
      · simp [State.pending, State.swapRequests, hread, hcons]
      · simp [State.swapRequests, hread]
    | lastPass i =>
      have hw := hcls (by simp [hpc, Pc.closing])
      simp only [hpc, State.pending, Option.some.injEq] at hs hcons
      subst hs
      unfold State.process
      split
      · next r hr =>
        refine ⟨?_, hnot, fun _ hp => absurd rfl (hp (i + 1)), fun _ => hw⟩
        simp only [State.pending]
        rw [hcons, drop_of_getElem? hr]
        simp
      · next hr =>
        refine ⟨?_, hnot, fun _ _ => rfl, fun _ => hw⟩
        simp only [State.pending]
        rw [hcons, drop_of_getElem?_none hr]
    | ended =>
      simp only [hpc] at hs
      exact absurd hs (by simp)

/-! ### Progress -/

/-- The service thread alone takes the state to one where everything listed is processed. -/
def Finishes (svc : Service) (s : State α) (listed : List α) : Prop :=
  ∃ n s', run (step svc) s (List.replicate n .run) = some s' ∧
    s'.processed = s.processed ++ listed

lemma Finishes.nil : Finishes svc s [] := ⟨0, s, rfl, by simp⟩

lemma Finishes.step {listed : List α} (t : State α) (hs : s.runStep svc = some t)
    (hp : t.processed = s.processed) (h : Finishes svc t listed) : Finishes svc s listed := by
  obtain ⟨n, s', hrun, hs'⟩ := h
  refine ⟨n + 1, s', ?_, by rw [hs', hp]⟩
  rw [List.replicate_succ]
  exact run_cons.mpr ⟨t, hs, hrun⟩

/-- The rest of a pass, step by step, for both passes. What is processed behind it is up to the
state the pass leaves. -/
lemma finishes_pass {next : ℕ → Pc} {done : Pc} {i : ℕ} {later : List α}
    (hrun : ∀ (t : State α) (j : ℕ), t.pc = next j → t.runStep svc = some (t.process j next done))
    (hpc : s.pc = next i)
    (hdone : ∀ processed, Finishes svc
      { s with requestsRead := [], pc := done, processed := processed } later) :
    Finishes svc s (s.requestsRead.drop i ++ later) := by
  induction hk : s.requestsRead.length - i generalizing s i with
  | zero =>
    have hnone : s.requestsRead[i]? = none := List.getElem?_eq_none_iff.mpr (by omega)
    rw [drop_of_getElem?_none hnone, List.nil_append]
    refine Finishes.step { s with requestsRead := [], pc := done } ?_ rfl (hdone s.processed)
    rw [hrun s i hpc, State.process, hnone]
  | succ k ih =>
    have hi : i < s.requestsRead.length := by omega
    have hsome : s.requestsRead[i]? = some (s.requestsRead[i]) := List.getElem?_eq_getElem hi
    obtain ⟨n, t, h1, h2⟩ := ih (i := i + 1)
      (s := { s with processed := s.processed ++ [s.requestsRead[i]], pc := next (i + 1) })
      rfl (fun processed => hdone processed) (by simp only; omega)
    refine ⟨n + 1, t, ?_, ?_⟩
    · rw [List.replicate_succ]
      refine run_cons.mpr ⟨_, ?_, h1⟩
      change s.runStep svc = _
      rw [hrun s i hpc, State.process, hsome]
    · rw [h2, drop_of_getElem? hsome]
      simp only [List.append_assoc, List.cons_append, List.nil_append]

lemma finishes_onWaitEnd : Finishes svc s.onWaitEnd s.requestsWrite := by
  have h := @finishes_pass α svc s.onWaitEnd .pass .top 0 []
    (fun t j ht => by rw [State.runStep, ht]) rfl fun processed => .nil
  simpa [State.onWaitEnd, State.swapRequests] using h

/-- Before and inside `wait`: what waits has been notified. -/
lemma finishes_wait (h : s.requestsWrite ≠ [] → s.hasNotified)
    (hpc : s.pc = .enter ∨ s.pc = .waiting) : Finishes svc s s.requestsWrite := by
  by_cases hw : s.requestsWrite = []
  · rw [hw]
    exact .nil
  · have hn := h hw
    refine Finishes.step s.onWaitEnd ?_ rfl finishes_onWaitEnd
    rcases hpc with hpc | hpc
    · rw [State.runStep, hpc]; exact if_pos hn
    · rw [State.runStep, hpc]; exact if_pos hn

lemma finishes_last (hpc : s.pc = .last) : Finishes svc s s.requestsWrite := by
  refine Finishes.step { s.swapRequests with pc := .lastPass 0 } ?_ rfl ?_
  · rw [State.runStep, hpc]
  · have h := @finishes_pass α svc { s.swapRequests with pc := .lastPass 0 } .lastPass .ended 0 []
      (fun t j ht => by rw [State.runStep, ht]) rfl fun processed => .nil
    simpa [State.swapRequests] using h

lemma finishes_top (h : s.requestsWrite ≠ [] → s.hasNotified) (hpc : s.pc = .top)
    (hsvc : svc.finalPass ∨ ¬ s.stoped) : Finishes svc s s.requestsWrite := by
  by_cases hstop : s.stoped
  · have hfinal : svc.finalPass := hsvc.resolve_right (by simp [hstop])
    refine Finishes.step { s with pc := .last } ?_ rfl (finishes_last rfl)
    simp [State.runStep, hpc, hstop, hfinal]
  · refine Finishes.step { s with pc := .enter } ?_ rfl (finishes_wait h (.inl rfl))
    simp [State.runStep, hpc, hstop]

/-- Whatever has been put is processed if the service thread keeps running. -/
lemma Inv.finishes (h : Inv s) (hsvc : svc.finalPass ∨ ¬ s.stoped) (hpc : s.pc ≠ .ended) :
    Finishes svc s (s.pending ++ s.requestsWrite) := by
  have hread := h.cleared
  have hclosed := h.closed
  cases hc : s.pc with
  | top =>
    rw [State.pending, hc, hread (by simp [hc]) (by simp [hc]), List.nil_append]
    exact finishes_top h.notified hc hsvc
  | enter =>
    rw [State.pending, hc, hread (by simp [hc]) (by simp [hc]), List.nil_append]
    exact finishes_wait h.notified (.inl hc)
  | waiting =>
    rw [State.pending, hc, hread (by simp [hc]) (by simp [hc]), List.nil_append]
    exact finishes_wait h.notified (.inr hc)
  | last =>
    rw [State.pending, hc, hread (by simp [hc]) (by simp [hc]), List.nil_append]
    exact finishes_last hc
  | pass i =>
    rw [State.pending, hc]
    refine finishes_pass (fun t j ht => by rw [State.runStep, ht]) hc fun processed => ?_
    exact @finishes_top α svc { s with requestsRead := [], pc := .top, processed := processed }
      h.notified rfl hsvc
  | lastPass i =>
    rw [State.pending, hc]
    have hnil : s.requestsWrite = [] := hclosed (by simp [hc, Pc.closing])
    rw [hnil]
    exact @finishes_pass α svc s .lastPass .ended i [] (fun t j ht => by rw [State.runStep, ht])
      hc fun processed => .nil
  | ended => exact absurd hc hpc

/-! ### Exactly once, in order -/

/-- **Every request once, in order.** In every run in which no pass throws, nothing is put after
the last exchange, and `GroupTransferService` leaves its loop only with nothing waiting, the
requests are processed in the order in which they were put; none is left when the thread has
ended; and until then the service thread, left to itself, processes all that was put. -/
theorem requests_exactly_once {svc : Service} {actions : List (Action α)} {s : State α}
    (hok : Meets (step svc) (Allowed svc) State.started actions)
    (hrun : run (step svc) State.started actions = some s) :
    s.processed <+: s.arrived ∧
    (s.pc = .ended → s.processed = s.arrived) ∧
    (s.pc ≠ .ended → (svc.finalPass ∨ ¬ s.stoped) → ∃ n s',
      run (step svc) s (List.replicate n .run) = some s' ∧ s'.processed = s.arrived) := by
  have h : Inv s := run_invariant (fun _ _ _ h hok hs => step_inv h hok hs) inv_started hok hrun
  have hcons := h.conserved
  refine ⟨?_, fun hpc => ?_, fun hpc hsvc => ?_⟩
  · rw [hcons, List.append_assoc]
    exact List.prefix_append _ _
  · have hread := h.cleared (by simp [hpc]) (by simp [hpc])
    have hwrite := h.closed (by simp [hpc, Pc.closing])
    rw [hcons, State.pending, hpc, hread, hwrite]
    simp
  · obtain ⟨n, s', h1, h2⟩ := h.finishes hsvc hpc
    exact ⟨n, s', h1, by rw [h2, hcons, List.append_assoc]⟩

/-- Two requests, the second of which makes the pass throw, and two more. -/
def thrownRun : List (Action ℕ) :=
  [.putRequest 1, .putRequest 2, .run, .run, .run, .throw, .putRequest 3, .run, .run, .run, .run,
    .putRequest 4, .run, .run, .run]

/-- After the exception the third request is processed before the second, and the first one
twice. `GroupTransferService` ends with a request it was given before it was stopped. -/
theorem requests_exactly_once_thrown :
    (∃ s, run (step .DispatchMessageService) State.started thrownRun = some s ∧
      s.arrived = [1, 2, 3, 4] ∧ s.processed = [1, 3, 1] ∧ ¬ s.processed <+: s.arrived) ∧
    ∃ s, run (step .GroupTransferService) (State.started : State ℕ)
      [.putRequest 1, .stop, .run] = some s ∧ s.pc = .ended ∧ s.arrived = [1] ∧
        s.processed = [] := by
  refine ⟨⟨_, rfl, rfl, rfl, by decide⟩, ⟨_, rfl, rfl, rfl, rfl⟩⟩

/-- Three requests, the last one between the stop and the last exchange. -/
def stoppedRun : List (Action ℕ) :=
  [.putRequest 1, .run, .run, .putRequest 2, .run, .run, .stop, .putRequest 3, .run, .run, .run,
    .run, .run]

theorem requests_exactly_once_stopped :
    ∃ s, run (step .GroupCommitService) State.started stoppedRun = some s ∧ s.pc = .ended ∧
      s.arrived = [1, 2, 3] ∧ s.processed = s.arrived := by
  have hrun : run (step .GroupCommitService) State.started stoppedRun =
      some ⟨[], [], true, true, .ended, [1, 2, 3], [1, 2, 3]⟩ := by decide
  have hok : Meets (step .GroupCommitService) (Allowed .GroupCommitService) State.started
      stoppedRun := by
    simp [Meets, Allowed, stoppedRun, step, State.started, State.putRequest, State.runStep,
      State.onWaitEnd, State.swapRequests, State.process, Pc.closing, Service.finalPass]
  exact ⟨_, hrun, rfl, rfl, (requests_exactly_once hok hrun).2.1 rfl⟩

end CloudMQ.ServiceThread
