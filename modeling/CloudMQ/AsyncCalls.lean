import CloudMQ.Runs

/-!
Asynchronous calls: `invokeAsyncImpl`, the listener of its write, the responses and the scan for
calls that timed out.

Each of them may complete a call. They share the entry of the call in `responseTable`, a permit that
is released once and a callback that is executed once. When the write throws, the permit is
released and the exception goes to the caller, but the entry stays in the table, and whoever finds
it there executes the callback of a call that failed.
-/

namespace CloudMQ.AsyncCalls

open CloudMQ.Runs

/-! ### A call -/

/-- How far `invokeAsyncImpl` and the listener of its write have come. -/
inductive Stage
  /-- no permit within the timeout: an exception was thrown -/
  | refused
  /-- a permit was acquired, and the future is not in the table yet -/
  | acquired
  /-- `writeAndFlush` is called -/
  | writing
  /-- `writeAndFlush` threw, and the permit is to be released -/
  | caught
  | thrown
  /-- the call returned, and the listener waits for the write -/
  | returned
  | sent
  /-- the write failed: the entry is to be removed, the callback executed, the permit released -/
  | failRemove
  | failExecute
  | failRelease
  | failed
  deriving DecidableEq, Repr

/-- An exception is, or will be, thrown to the caller. -/
def Stage.threw : Stage → Bool
  | .refused | .caught | .thrown => true
  | _ => false

/-- Who released the permit, with the number of the thread of a handler. -/
inductive Releaser
  | exception
  | failedWrite
  | response (t : ℕ)
  | timeout (t : ℕ)
  deriving DecidableEq, Repr

/-- A call and its `ResponseFuture`. -/
structure Call where
  stage : Stage
  timeoutMillis : Int64
  beginTimestamp : Int64 := 0
  /-- whether there is a callback -/
  invokeCallback : Bool
  /-- whether `responseTable` has the future -/
  inTable : Bool := false
  /-- `SemaphoreReleaseOnlyOnce.released`, with who set it -/
  releasedBy : Option Releaser := none
  executeCallbackOnlyOnce : Bool := false
  /-- how often the callback was executed -/
  operationCompletes : ℕ := 0
  /-- a response or the scan has found the future in the table, and completes the call -/
  taken : Bool := false
  deriving DecidableEq, Repr

namespace Call

def executeInvokeCallback (c : Call) : Call :=
  if c.invokeCallback then
    if c.executeCallbackOnlyOnce then c
    else { c with executeCallbackOnlyOnce := true, operationCompletes := c.operationCompletes + 1 }
  else c

/-- `release`, with the permits that it gives back. -/
def release (r : Releaser) (c : Call) : ℕ × Call :=
  match c.releasedBy with
  | none => (1, { c with releasedBy := some r })
  | some _ => (0, c)

/-- `isTimeout` as the scan has it. -/
def isDue (now : Int64) (c : Call) : Bool := c.beginTimestamp + c.timeoutMillis + 1000 ≤ now

end Call

/-- What happens in `invokeAsyncImpl` and in the listener. -/
inductive Event
  | put (now : Int64)
  | writeThrows
  | releaseCaught
  | writeReturns
  | writeSucceeds
  | writeFails
  | removeFailed
  | executeFailed
  | releaseFailed
  deriving DecidableEq, Repr

/-- The call after the event, with the permits that are given back. -/
def Call.next (c : Call) : Event → Option (ℕ × Call)
  | .put now =>
    if c.stage = .acquired then
      some (0, { c with stage := .writing, beginTimestamp := now, inTable := true })
    else none
  | .writeThrows => if c.stage = .writing then some (0, { c with stage := .caught }) else none
  | .releaseCaught =>
    if c.stage = .caught then some (({ c with stage := .thrown } : Call).release .exception)
    else none
  | .writeReturns => if c.stage = .writing then some (0, { c with stage := .returned }) else none
  | .writeSucceeds => if c.stage = .returned then some (0, { c with stage := .sent }) else none
  | .writeFails => if c.stage = .returned then some (0, { c with stage := .failRemove }) else none
  | .removeFailed =>
    if c.stage = .failRemove then some (0, { c with stage := .failExecute, inTable := false })
    else none
  | .executeFailed =>
    if c.stage = .failExecute then
      some (0, ({ c with stage := .failRelease } : Call).executeInvokeCallback)
    else none
  | .releaseFailed =>
    if c.stage = .failRelease then some (({ c with stage := .failed } : Call).release .failedWrite)
    else none

/-! ### The handlers -/

/-- What a thread does with the future it has found in the table. The callback of a response may run
in an executor, after the handler has ended. -/
inductive Task
  | idle
  | respRelease (opaqueId : ℤ)
  | respRemove (opaqueId : ℤ)
  | respCallback (opaqueId : ℤ)
  /-- the iterator of the scan is at the entry -/
  | scanLook (opaqueId : ℤ)
  | scanExecute (opaqueId : ℤ)
  | scanRelease (opaqueId : ℤ)
  deriving DecidableEq, Repr

def Task.opaqueId? : Task → Option ℤ
  | .idle => none
  | .respRelease o | .respRemove o | .respCallback o => some o
  | .scanLook o | .scanExecute o | .scanRelease o => some o

/-- One step of `processResponseCommand` or of `scanResponseTable` in thread `t`: the permits that
are given back, the call and the task. -/
def Task.next (t : ℕ) (now : Int64) (c : Call) : Task → ℕ × Call × Task
  | .idle => (0, c, .idle)
  | .respRelease o =>
    let (permits, c) := c.release (.response t)
    (permits, c, .respRemove o)
  | .respRemove o =>
    (0, { c with inTable := false }, if c.invokeCallback then .respCallback o else .idle)
  | .respCallback _ => (0, c.executeInvokeCallback, .idle)
  | .scanLook o =>
    if c.isDue now then (0, { c with inTable := false, taken := true }, .scanExecute o)
    else (0, c, .idle)
  | .scanExecute o => (0, c.executeInvokeCallback, .scanRelease o)
  | .scanRelease _ =>
    let (permits, c) := c.release (.timeout t)
    (permits, c, .idle)

/-! ### The system -/

structure State where
  semaphoreAsync : ℕ
  /-- the calls so far -/
  opaqueIds : Finset ℤ
  calls : ℤ → Option Call
  tasks : ℕ → Task

def newState (permits : ℕ) : State := ⟨permits, ∅, fun _ => none, fun _ => .idle⟩

inductive Action
  /-- `tryAcquire` succeeds -/
  | invoke (opaqueId : ℤ) (invokeCallback : Bool) (timeoutMillis : Int64)
  /-- `tryAcquire` fails -/
  | refuse (opaqueId : ℤ) (invokeCallback : Bool) (timeoutMillis : Int64)
  | event (opaqueId : ℤ) (e : Event)
  /-- a response comes to a thread -/
  | response (t : ℕ) (opaqueId : ℤ)
  /-- the scan of a thread comes to an entry -/
  | scan (t : ℕ) (opaqueId : ℤ)
  /-- a handler goes on -/
  | task (t : ℕ) (now : Int64)

def newCall (stage : Stage) (invokeCallback : Bool) (timeoutMillis : Int64) : Call :=
  { stage, timeoutMillis, invokeCallback }

def State.setCall (s : State) (permits : ℕ) (o : ℤ) (c : Call) : State :=
  { s with semaphoreAsync := s.semaphoreAsync + permits
           calls := Function.update s.calls o (some c) }

def State.setTask (s : State) (t : ℕ) (k : Task) : State :=
  { s with tasks := Function.update s.tasks t k }

def step (s : State) : Action → Option State
  | .invoke o invokeCallback timeoutMillis =>
    if o ∈ s.opaqueIds ∨ s.semaphoreAsync = 0 then none
    else some { s with
      semaphoreAsync := s.semaphoreAsync - 1
      opaqueIds := insert o s.opaqueIds
      calls := Function.update s.calls o (some (newCall .acquired invokeCallback timeoutMillis)) }
  | .refuse o invokeCallback timeoutMillis =>
    if o ∈ s.opaqueIds then none
    else some { s with
      opaqueIds := insert o s.opaqueIds
      calls := Function.update s.calls o (some (newCall .refused invokeCallback timeoutMillis)) }
  | .event o e =>
    (s.calls o).bind fun c => (c.next e).map fun r => s.setCall r.1 o r.2
  | .response t o =>
    if s.tasks t = .idle then
      match s.calls o with
      | none => some s
      | some c =>
        if c.inTable then
          some ((s.setCall 0 o { c with taken := true }).setTask t (.respRelease o))
        else some s
    else none
  | .scan t o =>
    if s.tasks t = .idle then
      (s.calls o).bind fun c => if c.inTable then some (s.setTask t (.scanLook o)) else none
    else none
  | .task t now =>
    (s.tasks t).opaqueId?.bind fun o => (s.calls o).map fun c =>
      let r := (s.tasks t).next t now c
      (s.setCall r.1 o r.2.1).setTask t r.2.2

/-! ### What is to hold -/

/-- The permit of the call was acquired, and is not released yet. -/
def Call.holds (c : Call) : Bool := c.stage ≠ .refused ∧ c.releasedBy = none

def State.holds (s : State) (o : ℤ) : Bool := ((s.calls o).map Call.holds).getD false

/-- The thread is in a response handler or a scan, with the future of the call. -/
def Task.handles (o : ℤ) : Task → Bool
  | .respRelease o' | .respRemove o' | .scanLook o' | .scanExecute o' | .scanRelease o' => o' = o
  | .idle | .respCallback _ => false

/-- **The accounting.** -/
structure Accounted (permits : ℕ) (s : State) : Prop where
  permits : s.semaphoreAsync + (s.opaqueIds.filter fun o => s.holds o).card = permits
  once : ∀ o c, s.calls o = some c → c.operationCompletes ≤ 1
  thrown : ∀ o c, s.calls o = some c → c.stage.threw → c.operationCompletes = 0
  removed : ∀ o c t, s.calls o = some c →
    c.releasedBy = some (.response t) ∨ c.releasedBy = some (.timeout t) →
    (s.tasks t).handles o = false → c.inTable = false

/-- **The condition** on a step: with a callback, a call that threw is found neither by a response
nor, when it is due, by the scan, and the write of a call that they found does not throw. -/
def Separate (s : State) : Action → Prop
  | .event o .writeThrows => ∀ c ∈ s.calls o, c.invokeCallback → ¬ c.taken
  | .response _ o => ∀ c ∈ s.calls o, c.inTable → c.invokeCallback → ¬ c.stage.threw
  | .task t now => ∀ o, s.tasks t = .scanLook o → ∀ c ∈ s.calls o, c.isDue now →
    c.invokeCallback → ¬ c.stage.threw
  | _ => True

/-! ### What every step keeps -/

/-- The future was put into the table. -/
def Stage.isPut : Stage → Bool
  | .refused | .acquired => false
  | _ => true

structure Call.Good (c : Call) : Prop where
  fresh : c.stage.isPut = false → c.inTable = false ∧ c.taken = false ∧ c.releasedBy = none
  count : c.operationCompletes = c.executeCallbackOnlyOnce.toNat
  cause : c.executeCallbackOnlyOnce = true → c.invokeCallback = true ∧
    (c.taken = true ∨ c.stage = .failRelease ∨ c.stage = .failed)
  apart : c.taken = true → c.invokeCallback = true → c.stage.threw = false
  timeout : ∀ t, c.releasedBy = some (.timeout t) → c.inTable = false

/-- What a thread relies on about its call. -/
structure Task.Good (k : Task) (c : Call) : Prop where
  put : c.stage.isPut = true
  taken : (∀ o, k ≠ .scanLook o) → c.taken = true
  out : (∀ o, k ≠ .scanLook o) → (∀ o, k ≠ .respRelease o) → (∀ o, k ≠ .respRemove o) →
    c.inTable = false

/-- What stays as it is, once it is so. -/
structure Call.Goes (c c' : Call) : Prop where
  put : c.stage.isPut = true → c'.stage.isPut = true
  taken : c.taken = true → c'.taken = true
  out : c.stage.isPut = true → c.inTable = false → c'.inTable = false
  released : ∀ r, c.releasedBy = some r → c'.releasedBy = some r

lemma Task.Good.goes {k : Task} {c c' : Call} (h : k.Good c) (hgoes : c.Goes c') : k.Good c' where
  put := hgoes.put h.put
  taken hk := hgoes.taken (h.taken hk)
  out h1 h2 h3 := hgoes.out h.put (h.out h1 h2 h3)

lemma Call.Goes.refl (c : Call) : c.Goes c := ⟨id, id, fun _ => id, fun _ => id⟩

structure Inv (permits : ℕ) (s : State) : Prop where
  mem_iff : ∀ o, o ∈ s.opaqueIds ↔ (s.calls o).isSome
  permits : s.semaphoreAsync + (s.opaqueIds.filter fun o => s.holds o).card = permits
  call : ∀ o c, s.calls o = some c → c.Good
  task : ∀ t o, (s.tasks t).opaqueId? = some o → ∃ c, s.calls o = some c ∧ (s.tasks t).Good c
  response : ∀ o c t, s.calls o = some c → c.releasedBy = some (.response t) →
    s.tasks t = .respRemove o ∨ c.inTable = false

lemma Inv.accounted {n : ℕ} {s : State} (h : Inv n s) : Accounted n s where
  permits := h.permits
  once o c hc := by
    rw [(h.call o c hc).count]
    exact Bool.toNat_le _
  thrown o c hc hthrew := by
    have hgood := h.call o c hc
    rw [hgood.count]
    cases hex : c.executeCallbackOnlyOnce with
    | false => rfl
    | true =>
      obtain ⟨hcb, htaken | hfail | hfail⟩ := hgood.cause hex
      · have := hgood.apart htaken hcb
        rw [hthrew] at this
        cases this
      · rw [hfail] at hthrew
        cases hthrew
      · rw [hfail] at hthrew
        cases hthrew
  removed o c t hc hby hhandles := by
    rcases hby with hby | hby
    · rcases h.response o c t hc hby with htask | hout
      · rw [htask, Task.handles, decide_eq_false_iff_not] at hhandles
        exact absurd rfl hhandles
      · exact hout
    · exact (h.call o c hc).timeout t hby

/-! ### One call goes on -/

section Set

variable {n : ℕ} {s s' : State} {o : ℤ} {c c' : Call} {t : ℕ} {k : Task} {permits : ℕ}

/-- One element of a set may leave the part of it that has a property. -/
lemma card_filter_update {l : Finset ℤ} (p p' : ℤ → Bool) (ho : o ∈ l)
    (hother : ∀ o' ≠ o, p' o' = p o') :
    (l.filter fun o => p' o).card + (p o).toNat = (l.filter fun o => p o).card + (p' o).toNat := by
  have hsum : ∀ r : ℤ → Bool, (l.filter fun o => r o).card =
      (r o).toNat + ((l.erase o).filter fun o => r o).card := by
    intro r
    rw [Finset.card_filter, Finset.card_filter, ← Finset.add_sum_erase l _ ho]
    cases r o with
    | false => rfl
    | true => rfl
  have hrest : ((l.erase o).filter fun o => p' o) = (l.erase o).filter fun o => p o := by
    refine Finset.filter_congr fun o' ho' => ?_
    rw [hother o' (Finset.ne_of_mem_erase ho')]
  rw [hsum p', hsum p, hrest]
  omega

/-- **A call and a thread go on.** -/
lemma Inv.set (h : Inv n s) (hc : s.calls o = some c)
    (hpermits : permits + c'.holds.toNat = c.holds.toNat) (hgood : c'.Good) (hgoes : c.Goes c')
    (htask : k = s.tasks t ∨ ∀ o', k.opaqueId? = some o' → o' = o ∧ k.Good c')
    (hremove : ∀ o', s.tasks t = .respRemove o' →
      k = .respRemove o' ∨ o' = o ∧ c'.inTable = false)
    (hby : ∀ t', c'.releasedBy = some (.response t') →
      c.releasedBy = some (.response t') ∨ t' = t ∧ k = .respRemove o) :
    Inv n ((s.setCall permits o c').setTask t k) := by
  have hcalls : ∀ o' c₁, ((s.setCall permits o c').setTask t k).calls o' = some c₁ →
      o' = o ∧ c₁ = c' ∨ o' ≠ o ∧ s.calls o' = some c₁ := by
    intro o' c₁ h₁
    by_cases ho : o' = o
    · rw [ho] at h₁ ⊢
      change Function.update s.calls o (some c') o = some c₁ at h₁
      rw [Function.update_self, Option.some.injEq] at h₁
      exact .inl ⟨rfl, h₁.symm⟩
    · refine .inr ⟨ho, ?_⟩
      rwa [← Function.update_of_ne ho (some c') s.calls]
  have htasks : ∀ t', ((s.setCall permits o c').setTask t k).tasks t' =
      if t' = t then k else s.tasks t' := fun t' => Function.update_apply _ _ _ _
  have hself : ((s.setCall permits o c').setTask t k).calls o = some c' :=
    Function.update_self _ _ _
  have hother : ∀ o' ≠ o, ((s.setCall permits o c').setTask t k).calls o' = s.calls o' :=
    fun o' ho => Function.update_of_ne ho _ _
  have hkept : ∀ (o' : ℤ) (k' : Task), (∃ c₁, s.calls o' = some c₁ ∧ k'.Good c₁) →
      ∃ c₁, ((s.setCall permits o c').setTask t k).calls o' = some c₁ ∧ k'.Good c₁ := by
    rintro o' k' ⟨c₁, hc₁, hk'⟩
    by_cases ho : o' = o
    · rw [ho] at hc₁ ⊢
      obtain rfl : c = c₁ := Option.some.inj (hc.symm.trans hc₁)
      exact ⟨c', hself, hk'.goes hgoes⟩
    · exact ⟨c₁, (hother o' ho).trans hc₁, hk'⟩
  refine ⟨fun o' => ?_, ?_, fun o' c₁ h₁ => ?_, fun t' o' ht' => ?_, fun o' c₁ t' h₁ hr => ?_⟩
  · by_cases ho : o' = o
    · rw [ho, hself]
      exact (h.mem_iff o).trans (by rw [hc]; exact Iff.rfl)
    · rw [hother o' ho]
      exact h.mem_iff o'
  · have hmem : o ∈ s.opaqueIds := (h.mem_iff o).mpr (by rw [hc]; rfl)
    have hcard := card_filter_update s.holds
      ((s.setCall permits o c').setTask t k).holds hmem fun o' ho => by
        rw [State.holds, hother o' ho]
        rfl
    have hold : s.holds o = c.holds := by rw [State.holds, hc]; rfl
    have hnew : ((s.setCall permits o c').setTask t k).holds o = c'.holds := by
      rw [State.holds, hself]; rfl
    have hbefore := h.permits
    rw [hold, hnew] at hcard
    have hsem : ((s.setCall permits o c').setTask t k).semaphoreAsync =
        s.semaphoreAsync + permits := rfl
    have hids : ((s.setCall permits o c').setTask t k).opaqueIds = s.opaqueIds := rfl
    rw [hsem, hids]
    omega
  · rcases hcalls o' c₁ h₁ with ⟨-, rfl⟩ | ⟨-, h₁⟩
    · exact hgood
    · exact h.call o' c₁ h₁
  · rw [htasks] at ht' ⊢
    split_ifs at ht' ⊢
    · rcases htask with rfl | hk
      · exact hkept o' _ (h.task t o' ht')
      · obtain ⟨rfl, hgoodTask⟩ := hk o' ht'
        exact ⟨c', hself, hgoodTask⟩
    · exact hkept o' _ (h.task t' o' ht')
  · rw [htasks]
    rcases hcalls o' c₁ h₁ with ⟨rfl, rfl⟩ | ⟨ho, h₁⟩
    · rcases hby t' hr with hr' | ⟨rfl, rfl⟩
      · rcases h.response o' c t' hc hr' with ht' | hout
        · split_ifs with heq
          · rw [heq] at ht'
            exact (hremove o' ht').imp id And.right
          · exact .inl ht'
        · -- a permit is released only behind `put`
          have hput : c.stage.isPut = true := by
            by_contra hne
            have := ((h.call o' c hc).fresh (Bool.eq_false_of_not_eq_true hne)).2.2
            rw [this] at hr'
            cases hr'
          exact .inr (hgoes.out hput hout)
      · rw [if_pos rfl]
        exact .inl rfl
    · rcases h.response o' c₁ t' h₁ hr with ht' | hout
      · split_ifs with heq
        · rw [heq] at ht'
          exact .inl ((hremove o' ht').resolve_right fun hc' => ho hc'.1)
        · exact .inl ht'
      · exact .inr hout

lemma Call.Goes.trans {c'' : Call} (h : c.Goes c') (h' : c'.Goes c'') : c.Goes c'' where
  put := h'.put ∘ h.put
  taken := h'.taken ∘ h.taken
  out hput hout := h'.out (h.put hput) (h.out hput hout)
  released r hr := h'.released r (h.released r hr)

/-- What a step of a call keeps. -/
structure Keeps (permits : ℕ) (c c' : Call) : Prop where
  good : c'.Good
  goes : c.Goes c'
  permits : permits + c'.holds.toNat = c.holds.toNat

/-- The call goes on to another stage, behind `put`. -/
lemma Call.Good.stage (h : c.Good) (stage : Stage) (hput : c.stage.isPut = true)
    (hput' : stage.isPut = true) (hfail : c.stage ≠ .failRelease ∧ c.stage ≠ .failed ∨
      stage = .failed)
    (hthrew : stage.threw = true → c.stage.threw = true ∨
      (c.invokeCallback = true → c.taken = false)) :
    Keeps 0 c { c with stage } := by
  have hholds : ({ c with stage } : Call).holds = c.holds := by
    have h1 : stage ≠ .refused := by
      rintro rfl
      cases hput'
    have h2 : c.stage ≠ .refused := by
      intro heq
      rw [heq] at hput
      cases hput
    simp [Call.holds, h1, h2]
  refine ⟨⟨fun hne => ?_, h.count, fun hex => ?_, fun htaken hcb => ?_, h.timeout⟩,
    ⟨fun _ => hput', id, fun _ => id, fun _ => id⟩, by rw [hholds, Nat.zero_add]⟩
  · rw [hput'] at hne
    cases hne
  · obtain ⟨hcb, htaken | hstage⟩ := h.cause hex
    · exact ⟨hcb, .inl htaken⟩
    · refine ⟨hcb, .inr (.inr (hfail.resolve_left fun hnot => ?_))⟩
      exact hstage.elim hnot.1 hnot.2
  · by_contra hthrew'
    rcases hthrew (Bool.eq_true_of_not_eq_false hthrew') with hold | hnot
    · have := h.apart htaken hcb
      rw [hold] at this
      cases this
    · have htaken' : c.taken = true := htaken
      rw [hnot hcb] at htaken'
      cases htaken'

/-- The permit is given back once. -/
lemma Call.Good.release (h : c.Good) (r : Releaser) (hput : c.stage.isPut = true)
    (hout : ∀ t, r = .timeout t → c.inTable = false) :
    Keeps (c.release r).1 c (c.release r).2 ∧
      ∀ r', (c.release r).2.releasedBy = some r' → c.releasedBy = some r' ∨ r' = r := by
  rw [Call.release]
  cases hby : c.releasedBy with
  | some r' =>
    refine ⟨⟨h, Call.Goes.refl c, Nat.zero_add _⟩, fun r'' hr'' => .inl ?_⟩
    exact hby.symm.trans hr''
  | none =>
    have hne : c.stage ≠ .refused := by
      intro heq
      rw [heq] at hput
      cases hput
    have hholds : c.holds = true := by simp [Call.holds, hne, hby]
    have hholds' : ({ c with releasedBy := some r } : Call).holds = false := by simp [Call.holds]
    refine ⟨⟨⟨fun hnot => ?_, h.count, h.cause, h.apart, fun t ht => ?_⟩,
      ⟨id, id, fun _ => id, fun r' hr' => ?_⟩, ?_⟩, fun r' hr' => .inr ?_⟩
    · rw [hput] at hnot
      cases hnot
    · exact hout t (Option.some.inj ht)
    · rw [hby] at hr'
      cases hr'
    · rw [hholds, hholds']
      rfl
    · exact (Option.some.inj hr').symm

/-- The callback is executed once, by a handler or by the listener. -/
lemma Call.Good.executeInvokeCallback (h : c.Good)
    (hfor : c.taken = true ∨ c.stage = .failRelease ∨ c.stage = .failed) :
    Keeps 0 c c.executeInvokeCallback ∧ c.executeInvokeCallback.releasedBy = c.releasedBy := by
  rw [Call.executeInvokeCallback]
  split_ifs with hcb hex
  · exact ⟨⟨h, Call.Goes.refl c, Nat.zero_add _⟩, rfl⟩
  · refine ⟨⟨⟨h.fresh, ?_, fun _ => ⟨hcb, hfor⟩, h.apart, h.timeout⟩,
      ⟨id, id, fun _ => id, fun _ => id⟩, Nat.zero_add _⟩, rfl⟩
    have hcount := h.count
    rw [Bool.eq_false_of_not_eq_true hex] at hcount
    change c.operationCompletes + 1 = 1
    rw [hcount]
    rfl
  · exact ⟨⟨h, Call.Goes.refl c, Nat.zero_add _⟩, rfl⟩

/-- The entry is removed. -/
lemma Call.Good.remove (h : c.Good) : Keeps 0 c { c with inTable := false } :=
  ⟨⟨fun hne => ⟨rfl, (h.fresh hne).2⟩, h.count, h.cause, h.apart, fun _ _ => rfl⟩,
    ⟨id, id, fun _ _ => rfl, fun _ => id⟩, Nat.zero_add _⟩

lemma Keeps.trans {c'' : Call} {permits' : ℕ} (h : Keeps permits c c')
    (h' : Keeps permits' c' c'') (hzero : permits = 0) : Keeps permits' c c'' :=
  ⟨h'.good, h.goes.trans h'.goes, by have := h.permits; have := h'.permits; omega⟩

/-- **An event** of the invocation or the listener. -/
lemma Call.Good.next (h : c.Good) {e : Event} (he : c.next e = some (permits, c'))
    (hsep : e = .writeThrows → c.invokeCallback = true → c.taken = false) :
    Keeps permits c c' ∧
      ∀ t, c'.releasedBy = some (.response t) → c.releasedBy = some (.response t) := by
  cases e with
  | put now =>
    obtain ⟨hstage, heq⟩ := Option.ite_none_right_eq_some.mp he
    obtain ⟨rfl, rfl⟩ := Prod.mk.inj (Option.some.inj heq)
    obtain ⟨-, htaken, hby⟩ := h.fresh (by rw [hstage]; rfl)
    have hex : c.executeCallbackOnlyOnce = false := by
      by_contra hne
      obtain ⟨-, hcause⟩ := h.cause (Bool.eq_true_of_not_eq_false hne)
      simp [htaken, hstage] at hcause
    have hfresh : c.stage.isPut = false := by rw [hstage]; rfl
    refine ⟨⟨⟨nofun, h.count, fun hex' => ?_, fun htaken' => ?_, fun t ht => ?_⟩,
      ⟨fun _ => rfl, id, fun hput => ?_, fun _ => id⟩, ?_⟩, fun _ => id⟩
    · exact absurd (hex.symm.trans hex') Bool.false_ne_true
    · exact absurd (htaken.symm.trans htaken') Bool.false_ne_true
    · exact absurd (hby.symm.trans ht) (Option.some_ne_none _).symm
    · exact absurd (hfresh.symm.trans hput) Bool.false_ne_true
    · simp [Call.holds, hstage]
  | writeThrows =>
    obtain ⟨hstage, heq⟩ := Option.ite_none_right_eq_some.mp he
    obtain ⟨rfl, rfl⟩ := Prod.mk.inj (Option.some.inj heq)
    exact ⟨h.stage _ (by rw [hstage]; rfl) rfl (.inl (by rw [hstage]; decide))
      fun _ => .inr (hsep rfl), fun _ => id⟩
  | releaseCaught =>
    obtain ⟨hstage, heq⟩ := Option.ite_none_right_eq_some.mp he
    obtain ⟨rfl, rfl⟩ := Prod.mk.inj (Option.some.inj heq)
    have hthrown := h.stage .thrown (by rw [hstage]; rfl) rfl
      (.inl (by rw [hstage]; decide)) fun _ => .inl (by rw [hstage]; rfl)
    obtain ⟨hrel, hby⟩ := hthrown.good.release .exception rfl nofun
    exact ⟨hthrown.trans hrel rfl, fun t ht => (hby _ ht).resolve_right nofun⟩
  | writeReturns =>
    obtain ⟨hstage, heq⟩ := Option.ite_none_right_eq_some.mp he
    obtain ⟨rfl, rfl⟩ := Prod.mk.inj (Option.some.inj heq)
    exact ⟨h.stage _ (by rw [hstage]; rfl) rfl (.inl (by rw [hstage]; decide)) nofun, fun _ => id⟩
  | writeSucceeds =>
    obtain ⟨hstage, heq⟩ := Option.ite_none_right_eq_some.mp he
    obtain ⟨rfl, rfl⟩ := Prod.mk.inj (Option.some.inj heq)
    exact ⟨h.stage _ (by rw [hstage]; rfl) rfl (.inl (by rw [hstage]; decide)) nofun, fun _ => id⟩
  | writeFails =>
    obtain ⟨hstage, heq⟩ := Option.ite_none_right_eq_some.mp he
    obtain ⟨rfl, rfl⟩ := Prod.mk.inj (Option.some.inj heq)
    exact ⟨h.stage _ (by rw [hstage]; rfl) rfl (.inl (by rw [hstage]; decide)) nofun, fun _ => id⟩
  | removeFailed =>
    obtain ⟨hstage, heq⟩ := Option.ite_none_right_eq_some.mp he
    obtain ⟨rfl, rfl⟩ := Prod.mk.inj (Option.some.inj heq)
    have hnext := h.stage .failExecute (by rw [hstage]; rfl) rfl
      (.inl (by rw [hstage]; decide)) nofun
    exact ⟨hnext.trans hnext.good.remove rfl, fun _ => id⟩
  | executeFailed =>
    obtain ⟨hstage, heq⟩ := Option.ite_none_right_eq_some.mp he
    obtain ⟨rfl, rfl⟩ := Prod.mk.inj (Option.some.inj heq)
    have hnext := h.stage .failRelease (by rw [hstage]; rfl) rfl
      (.inl (by rw [hstage]; decide)) nofun
    obtain ⟨hexec, hby⟩ := hnext.good.executeInvokeCallback (.inr (.inl rfl))
    exact ⟨hnext.trans hexec rfl, fun t ht => hby.symm.trans ht⟩
  | releaseFailed =>
    obtain ⟨hstage, heq⟩ := Option.ite_none_right_eq_some.mp he
    obtain ⟨rfl, rfl⟩ := Prod.mk.inj (Option.some.inj heq)
    have hnext := h.stage .failed (by rw [hstage]; rfl) rfl (.inr rfl) nofun
    obtain ⟨hrel, hby⟩ := hnext.good.release .failedWrite rfl nofun
    exact ⟨hnext.trans hrel rfl, fun t ht => (hby _ ht).resolve_right nofun⟩

/-- **A step of a handler.** -/
lemma Call.Good.task (h : c.Good) {now : Int64} (hk : k.Good c) (ho : k.opaqueId? = some o)
    (hsep : k = .scanLook o → c.isDue now = true → c.invokeCallback = true →
      c.stage.threw = false) :
    Keeps (k.next t now c).1 c (k.next t now c).2.1 ∧
      (∀ o', (k.next t now c).2.2.opaqueId? = some o' →
        o' = o ∧ (k.next t now c).2.2.Good (k.next t now c).2.1) ∧
      (∀ o', k = .respRemove o' → (k.next t now c).2.1.inTable = false) ∧
      ∀ t', (k.next t now c).2.1.releasedBy = some (.response t') →
        c.releasedBy = some (.response t') ∨ t' = t ∧ (k.next t now c).2.2 = .respRemove o := by
  cases k with
  | idle => cases ho
  | respRelease o' =>
    obtain rfl : o' = o := Option.some.inj ho
    obtain ⟨hrel, hby⟩ := h.release (.response t) hk.put nofun
    refine ⟨hrel, fun o'' ho'' => ⟨(Option.some.inj ho'').symm, hrel.goes.put hk.put, fun _ => ?_,
      fun _ _ h3 => absurd rfl (h3 o')⟩, nofun, fun t' ht' => ?_⟩
    · exact hrel.goes.taken (hk.taken nofun)
    · refine (hby _ ht').imp id fun heq => ⟨?_, rfl⟩
      exact Releaser.response.inj heq
  | respRemove o' =>
    obtain rfl : o' = o := Option.some.inj ho
    have hrem := h.remove
    refine ⟨hrem, fun o'' ho'' => ?_, fun _ _ => rfl, fun _ => .inl⟩
    change (if c.invokeCallback then Task.respCallback o' else Task.idle).opaqueId? =
      some o'' at ho''
    change o'' = o' ∧ (if c.invokeCallback then Task.respCallback o' else Task.idle).Good _
    split_ifs at ho'' ⊢
    · exact ⟨(Option.some.inj ho'').symm, hk.put, fun _ => hk.taken nofun, fun _ _ _ => rfl⟩
    · cases ho''
  | respCallback o' =>
    obtain ⟨hexec, hby⟩ := h.executeInvokeCallback (.inl (hk.taken nofun))
    exact ⟨hexec, nofun, nofun, fun t' ht' => .inl (hby.symm.trans ht')⟩
  | scanLook o' =>
    obtain rfl : o' = o := Option.some.inj ho
    rw [Task.next]
    split_ifs with hdue
    · refine ⟨⟨⟨fun hne => ?_, h.count, fun hex => ?_, fun _ hcb => ?_, fun _ _ => rfl⟩,
        ⟨id, fun _ => rfl, fun _ _ => rfl, fun _ => id⟩, Nat.zero_add _⟩, fun o'' ho'' => ?_,
        nofun, fun _ => .inl⟩
      · rw [hk.put] at hne
        cases hne
      · exact ⟨(h.cause hex).1, .inl rfl⟩
      · exact hsep rfl hdue hcb
      · exact ⟨(Option.some.inj ho'').symm, hk.put, fun _ => rfl, fun _ _ _ => rfl⟩
    · exact ⟨⟨h, Call.Goes.refl c, Nat.zero_add _⟩, nofun, nofun, fun _ => .inl⟩
  | scanExecute o' =>
    obtain rfl : o' = o := Option.some.inj ho
    obtain ⟨hexec, hby⟩ := h.executeInvokeCallback (.inl (hk.taken nofun))
    refine ⟨hexec, fun o'' ho'' => ⟨(Option.some.inj ho'').symm, hexec.goes.put hk.put, fun _ => ?_,
      fun _ _ _ => ?_⟩, nofun, fun t' ht' => .inl (hby.symm.trans ht')⟩
    · exact hexec.goes.taken (hk.taken nofun)
    · exact hexec.goes.out hk.put (hk.out nofun nofun nofun)
  | scanRelease o' =>
    obtain rfl : o' = o := Option.some.inj ho
    obtain ⟨hrel, hby⟩ := h.release (.timeout t) hk.put fun _ _ => hk.out nofun nofun nofun
    exact ⟨hrel, nofun, nofun, fun t' ht' => .inl ((hby _ ht').resolve_right nofun)⟩

/-- **A new call.** -/
lemma Inv.add (h : Inv n s) (ho : o ∉ s.opaqueIds) {stage : Stage} {invokeCallback : Bool}
    {timeoutMillis : Int64} {semaphoreAsync : ℕ}
    (hsem : semaphoreAsync + (newCall stage invokeCallback timeoutMillis).holds.toNat =
      s.semaphoreAsync) :
    Inv n { s with
      semaphoreAsync := semaphoreAsync
      opaqueIds := insert o s.opaqueIds
      calls := Function.update s.calls o (some (newCall stage invokeCallback timeoutMillis)) } := by
  have hnone : s.calls o = none := by
    rw [← Option.not_isSome_iff_eq_none, ← h.mem_iff]
    exact ho
  have hcalls : ∀ o' c₁, Function.update s.calls o
      (some (newCall stage invokeCallback timeoutMillis)) o' = some c₁ →
      o' = o ∧ c₁ = newCall stage invokeCallback timeoutMillis ∨ o' ≠ o ∧ s.calls o' = some c₁ := by
    intro o' c₁ h₁
    by_cases heq : o' = o
    · rw [heq, Function.update_self, Option.some.injEq] at h₁
      exact .inl ⟨heq, h₁.symm⟩
    · rw [Function.update_of_ne heq] at h₁
      exact .inr ⟨heq, h₁⟩
  refine ⟨fun o' => ?_, ?_, fun o' c₁ h₁ => ?_, fun t' o' ht' => ?_, fun o' c₁ t' h₁ hr => ?_⟩
  · rw [Finset.mem_insert, h.mem_iff]
    by_cases heq : o' = o
    · rw [heq]
      simp
    · simp [heq]
  · -- the other calls hold what they held
    have hrest : (s.opaqueIds.filter fun o' => State.holds { s with
        semaphoreAsync := semaphoreAsync
        opaqueIds := insert o s.opaqueIds
        calls := Function.update s.calls o
          (some (newCall stage invokeCallback timeoutMillis)) } o') =
        s.opaqueIds.filter fun o' => s.holds o' := by
      refine Finset.filter_congr fun o' ho' => ?_
      have hne : o' ≠ o := fun heq => ho (heq ▸ ho')
      simp only [State.holds, Function.update_of_ne hne]
    have hnew : State.holds { s with
        semaphoreAsync := semaphoreAsync
        opaqueIds := insert o s.opaqueIds
        calls := Function.update s.calls o
          (some (newCall stage invokeCallback timeoutMillis)) } o =
        (newCall stage invokeCallback timeoutMillis).holds := by
      simp [State.holds]
    have hbefore := h.permits
    rw [Finset.filter_insert, hrest, hnew]
    split_ifs with hholds
    · rw [Finset.card_insert_of_notMem fun hmem => ho (Finset.mem_filter.mp hmem).1]
      rw [hholds, Bool.toNat_true] at hsem
      change semaphoreAsync + _ = n
      omega
    · rw [Bool.eq_false_of_not_eq_true hholds, Bool.toNat_false] at hsem
      change semaphoreAsync + _ = n
      omega
  · rcases hcalls o' c₁ h₁ with ⟨-, rfl⟩ | ⟨-, h₁⟩
    · exact ⟨fun _ => ⟨rfl, rfl, rfl⟩, rfl, nofun, nofun, nofun⟩
    · exact h.call o' c₁ h₁
  · obtain ⟨c₁, hc₁, hk⟩ := h.task t' o' ht'
    refine ⟨c₁, ?_, hk⟩
    have hne : o' ≠ o := by
      rintro rfl
      rw [hnone] at hc₁
      cases hc₁
    exact (Function.update_of_ne hne _ _).trans hc₁
  · rcases hcalls o' c₁ h₁ with ⟨-, rfl⟩ | ⟨-, h₁⟩
    · cases hr
    · exact h.response o' c₁ t' h₁ hr

/-- **Every step** keeps the invariant under the condition. -/
lemma Inv.step (h : Inv n s) {a : Action} (hs : step s a = some s') (hsep : Separate s a) :
    Inv n s' := by
  cases a with
  | invoke o invokeCallback timeoutMillis =>
    obtain ⟨hnot, heq⟩ := Option.ite_none_left_eq_some.mp hs
    obtain rfl := Option.some.inj heq
    rw [not_or] at hnot
    refine h.add hnot.1 ?_
    change s.semaphoreAsync - 1 + 1 = s.semaphoreAsync
    omega
  | refuse o invokeCallback timeoutMillis =>
    obtain ⟨hnot, heq⟩ := Option.ite_none_left_eq_some.mp hs
    obtain rfl := Option.some.inj heq
    exact h.add hnot rfl
  | event o e =>
    obtain ⟨c, hc, hnext⟩ := Option.bind_eq_some_iff.mp hs
    obtain ⟨⟨permits, c'⟩, he, rfl⟩ := Option.map_eq_some_iff.mp hnext
    have hsep' : e = .writeThrows → c.invokeCallback = true → c.taken = false := by
      rintro rfl hcb
      exact Bool.eq_false_of_not_eq_true (hsep c hc hcb)
    obtain ⟨hkeeps, hby⟩ := (h.call o c hc).next he hsep'
    have hset := h.set (t := 0) hc hkeeps.permits hkeeps.good hkeeps.goes (.inl rfl)
      (fun o' ho' => .inl ho') fun t' ht' => .inl (hby t' ht')
    rwa [State.setTask, show (s.setCall permits o c').tasks = s.tasks from rfl,
      Function.update_eq_self] at hset
  | response t o =>
    obtain ⟨hidle, hs⟩ := Option.ite_none_right_eq_some.mp hs
    cases hc : s.calls o with
    | none =>
      simp only [hc, Option.some.injEq] at hs
      exact hs ▸ h
    | some c =>
      simp only [hc] at hs
      split_ifs at hs with htable
      swap
      · exact Option.some.inj hs ▸ h
      obtain rfl := Option.some.inj hs
      have hgood := h.call o c hc
      have hput : c.stage.isPut = true := by
        by_contra hne
        have := (hgood.fresh (Bool.eq_false_of_not_eq_true hne)).1
        rw [htable] at this
        cases this
      refine h.set hc (Nat.zero_add _) ⟨fun hne => ?_, hgood.count, fun hex => ?_, fun _ hcb => ?_,
        hgood.timeout⟩ ⟨id, fun _ => rfl, fun _ => id, fun _ => id⟩ (.inr fun o' ho' => ?_)
        (fun o' ho' => ?_) fun t' ht' => .inl ht'
      · exact absurd (hput.symm.trans hne) nofun
      · exact ⟨(hgood.cause hex).1, .inl rfl⟩
      · exact Bool.eq_false_of_not_eq_true (hsep c hc htable hcb)
      · exact ⟨(Option.some.inj ho').symm, hput, fun _ => rfl, fun _ h2 => absurd rfl (h2 o)⟩
      · rw [hidle] at ho'
        cases ho'
  | scan t o =>
    obtain ⟨hidle, hs⟩ := Option.ite_none_right_eq_some.mp hs
    obtain ⟨c, hc, hs⟩ := Option.bind_eq_some_iff.mp hs
    obtain ⟨htable, heq⟩ := Option.ite_none_right_eq_some.mp hs
    obtain rfl := Option.some.inj heq
    have hgood := h.call o c hc
    have hput : c.stage.isPut = true := by
      by_contra hne
      have := (hgood.fresh (Bool.eq_false_of_not_eq_true hne)).1
      rw [htable] at this
      cases this
    have hset := h.set (t := t) (k := .scanLook o) hc (Nat.zero_add _) hgood (Call.Goes.refl c)
      (.inr fun o' ho' => ⟨(Option.some.inj ho').symm, hput, fun hne => absurd rfl (hne o),
        fun hne => absurd rfl (hne o)⟩)
      (fun o' ho' => by rw [hidle] at ho'; cases ho') fun t' ht' => .inl ht'
    rwa [State.setCall, ← hc, Function.update_eq_self] at hset
  | task t now =>
    obtain ⟨o, ho, hs⟩ := Option.bind_eq_some_iff.mp hs
    obtain ⟨c, hc, rfl⟩ := Option.map_eq_some_iff.mp hs
    obtain ⟨c₁, hc₁, hk⟩ := h.task t o ho
    obtain rfl : c = c₁ := Option.some.inj (hc.symm.trans hc₁)
    obtain ⟨hkeeps, htask, hremove, hby⟩ := (h.call o c hc).task (t := t) hk ho
      fun hlook hdue hcb => Bool.eq_false_of_not_eq_true (hsep o hlook c hc hdue hcb)
    refine h.set hc hkeeps.permits hkeeps.good hkeeps.goes (.inr htask) (fun o' ho' => .inr ?_) hby
    refine ⟨?_, hremove o' ho'⟩
    rw [ho'] at ho
    exact Option.some.inj ho

end Set

lemma inv_newState (n : ℕ) : Inv n (newState n) where
  mem_iff o := by simp [newState]
  permits := rfl
  call _ _ h := nomatch h
  task _ _ h := nomatch h
  response _ _ _ h := nomatch h

/-- **The accounting of asynchronous calls.** In every run whose steps all meet the condition, the
permits add up, no callback is executed twice or for a call that threw, and a call that a response
or the scan has released is out of the table once the handler has ended. -/
theorem accounted_along {n : ℕ} {as : List Action} {s : State}
    (hr : run step (newState n) as = some s) (hm : Meets step Separate (newState n) as) :
    Accounted n s := by
  have hinv : Inv n s :=
    run_invariant (fun _ _ _ h hsep hs => Inv.step h hs hsep) (inv_newState n) hm hr
  exact hinv.accounted

/-! ### Runs of two calls -/

/-- The condition, decided. -/
def separates (s : State) : Action → Bool
  | .event o .writeThrows => (s.calls o).all fun c => !(c.invokeCallback && c.taken)
  | .response _ o =>
    (s.calls o).all fun c => !(c.inTable && c.invokeCallback && c.stage.threw)
  | .task t now =>
    match s.tasks t with
    | .scanLook o =>
      (s.calls o).all fun c => !(c.isDue now && c.invokeCallback && c.stage.threw)
    | _ => true
  | _ => true

lemma separate_of_separates (s : State) (a : Action) (h : separates s a = true) :
    Separate s a := by
  unfold separates at h
  split at h
  · intro c hc hcb htaken
    rw [Option.mem_def.mp hc] at h
    simp [hcb, htaken] at h
  · intro c hc htable hcb hthrew
    rw [Option.mem_def.mp hc] at h
    simp [htable, hcb, hthrew] at h
  · intro o ho c hc hdue hcb hthrew
    rw [ho] at h
    simp only [Option.mem_def.mp hc] at h
    simp [hdue, hcb, hthrew] at h
  · next hother hresp htask =>
    cases a with
    | event o e =>
      cases e with
      | writeThrows => exact absurd rfl (hother o)
      | _ => trivial
    | response t o => exact absurd rfl (hresp t o)
    | task t now => exact absurd rfl (htask t now)
    | _ => trivial

/-- Two responses come to the first call. The write of the second one throws. -/
def twoCalls : List Action :=
  [.invoke 1 true 3000, .event 1 (.put 0), .event 1 .writeReturns, .invoke 2 true 3000,
    .event 2 (.put 0), .event 2 .writeThrows, .response 0 1, .response 1 1, .task 0 10,
    .task 1 10, .task 0 10, .task 1 10, .task 1 10, .task 0 10, .event 2 .releaseCaught]

/-- The first call is completed once, and the second one not at all. -/
theorem accounted_twoCalls : ∃ s, run step (newState 2) twoCalls = some s ∧
    (s.calls 1).map Call.operationCompletes = some 1 ∧
    (s.calls 2).map (fun c => (c.stage, c.operationCompletes)) = some (.thrown, 0) ∧
    Accounted 2 s := by
  have hend : (run step (newState 2) twoCalls).map (fun s =>
      ((s.calls 1).map Call.operationCompletes,
        (s.calls 2).map fun c => (c.stage, c.operationCompletes))) =
      some (some 1, some (.thrown, 0)) := by
    decide
  obtain ⟨s, hs, heq⟩ := Option.map_eq_some_iff.mp hend
  obtain ⟨h1, h2⟩ := Prod.mk.inj heq
  have hchecks : checks step separates (newState 2) twoCalls = true := by decide
  exact ⟨s, hs, h1, h2, accounted_along hs (meets_of_checks separate_of_separates hchecks)⟩

/-- The write throws, and four seconds later the scan comes to the entry that is left. -/
def thrownRun : List Action :=
  [.invoke 1 true 3000, .event 1 (.put 0), .event 1 .writeThrows, .event 1 .releaseCaught,
    .scan 0 1, .task 0 4000, .task 0 4000]

/-- The callback of a call that threw is executed. -/
theorem thrown_called : ∃ s, run step (newState 1) thrownRun = some s ∧ ¬ Accounted 1 s := by
  have hend : (run step (newState 1) thrownRun).map (fun s =>
      (s.calls 1).map fun c => (c.stage, c.operationCompletes)) = some (some (.thrown, 1)) := by
    decide
  obtain ⟨s, hs, heq⟩ := Option.map_eq_some_iff.mp hend
  obtain ⟨c, hc, hcall⟩ := Option.map_eq_some_iff.mp heq
  obtain ⟨hstage, hcompletes⟩ := Prod.mk.inj hcall
  refine ⟨s, hs, fun hacc => ?_⟩
  have hzero := hacc.thrown 1 c hc (by rw [hstage]; rfl)
  rw [hcompletes] at hzero
  cases hzero

end CloudMQ.AsyncCalls
