import CloudMQ.Lists
import CloudMQ.Runs
import CloudMQ.TopicRoutes

/-!
The locks of queues on the broker, for consumers that take messages in order.

A call first looks, without the lock of the manager, whether its client holds the entry of a queue,
and then sets the timestamp of the entry that it found. For the queues that are left it waits for
the lock, and goes through them while it has it. A thread may be interrupted while it waits.
-/

namespace CloudMQ.RebalanceLock

open CloudMQ.Utf8 CloudMQ.Tables CloudMQ.Lists CloudMQ.Runs CloudMQ.TopicRoutes

structure LockEntry where
  clientId : Text
  lastUpdateTimestamp : ℤ

inductive Method
  | tryLock
  | tryLockBatch
  | unlockBatch
deriving DecidableEq

/-- A call that looks at its queues, that sets the timestamp of an entry, that waits for the lock,
that has it, that is about to return and that has returned. -/
inductive Stage
  | checking (mqs : List MessageQueue)
  | refreshing (entry : ℕ) (mqs : List MessageQueue)
  | waiting
  | locked (mqs : List MessageQueue)
  | returning
  | returned
deriving DecidableEq

/-- A call and the queues it has got. To know what it may promise: the queues whose entry has named
the client and was not expired at a moment of the call, and the queues that it got while the entry
named another client and was not expired. `tryLock` answers whether it has got its queue. -/
structure Call where
  method : Method
  group : Text
  clientId : Text
  mqs : List MessageQueue
  stage : Stage
  lockedMqs : List MessageQueue := []
  notLockedMqs : List MessageQueue := []
  seen : List MessageQueue := []
  disputed : List MessageQueue := []

/-- The entries by number, the call that has the lock, and the clock. -/
structure State where
  mqLockTable : Table Text (Table MessageQueue ℕ)
  entries : List LockEntry
  lock : Option ℕ
  calls : List Call
  currentTimeMillis : ℤ

def newState (currentTimeMillis : ℤ) : State := ⟨∅, [], none, [], currentTimeMillis⟩

inductive Action
  | tick (millis : ℕ)
  | call (method : Method) (group : Text) (mqs : List MessageQueue) (clientId : Text)
  | check (i : ℕ)
  | refresh (i : ℕ)
  | lockInterruptibly (i : ℕ)
  | interrupt (i : ℕ)
  | turn (i : ℕ)
  | unlock (i : ℕ)
  | ret (i : ℕ)

variable (RebalanceLockMaxLiveTime : ℕ)

def LockEntry.isExpired (now : ℤ) (e : LockEntry) : Bool :=
  RebalanceLockMaxLiveTime < now - e.lastUpdateTimestamp

def LockEntry.isLocked (now : ℤ) (clientId : Text) (e : LockEntry) : Bool :=
  e.clientId = clientId && !e.isExpired RebalanceLockMaxLiveTime now

namespace State

/-- The number of the entry of a queue. -/
def find (s : State) (group : Text) (mq : MessageQueue) : Option ℕ :=
  (s.mqLockTable.lookup group).bind (·.lookup mq)

/-- The entry of a queue. -/
def entry (s : State) (group : Text) (mq : MessageQueue) : Option LockEntry :=
  (s.find group mq).bind (s.entries[·]?)

/-- The entry names the client and is not expired. -/
def holds (s : State) (group : Text) (mq : MessageQueue) (clientId : Text) : Bool :=
  (s.entry group mq).any (·.isLocked RebalanceLockMaxLiveTime s.currentTimeMillis clientId)

/-- The entry names another client and is not expired. -/
def taken (s : State) (group : Text) (mq : MessageQueue) (clientId : Text) : Bool :=
  (s.entry group mq).any fun e =>
    e.clientId ≠ clientId && !e.isExpired RebalanceLockMaxLiveTime s.currentTimeMillis

def setCall (s : State) (i : ℕ) (c : Call) : State := { s with calls := s.calls.set i c }

def setTimestamp (s : State) (entry : ℕ) : State :=
  { s with entries := s.entries.modify entry fun e =>
      { e with lastUpdateTimestamp := s.currentTimeMillis } }

/-- An entry for the queue: the one that is there, or a new one of the client. -/
def getOrCreate (s : State) (group : Text) (mq : MessageQueue) (clientId : Text) : State × ℕ :=
  match s.find group mq with
  | some entry => (s, entry)
  | none =>
    ({ s with
        mqLockTable := s.mqLockTable.insert group
          (((s.mqLockTable.lookup group).getD ∅).insert mq s.entries.length)
        entries := s.entries ++ [⟨clientId, s.currentTimeMillis⟩] },
      s.entries.length)

/-- A queue in the section under the lock: whether the client gets it. -/
def lockOne (s : State) (group : Text) (mq : MessageQueue) (clientId : Text) : State × Bool :=
  let r := s.getOrCreate group mq clientId
  match r.1.entries[r.2]? with
  | some e =>
    if e.isLocked RebalanceLockMaxLiveTime s.currentTimeMillis clientId then
      (r.1.setTimestamp r.2, true)
    else if e.isExpired RebalanceLockMaxLiveTime s.currentTimeMillis then
      ({ r.1 with entries := r.1.entries.set r.2 ⟨clientId, s.currentTimeMillis⟩ }, true)
    else (r.1, false)
  | none => (r.1, false)

def unlockOne (s : State) (group : Text) (mq : MessageQueue) (clientId : Text) : State :=
  match s.mqLockTable.lookup group with
  | some groupValue =>
    match (groupValue.lookup mq).bind (s.entries[·]?) with
    | some e =>
      if e.clientId = clientId then
        { s with mqLockTable := s.mqLockTable.insert group (groupValue.erase mq) }
      else s
    | none => s
  | none => s

end State

/-- A queue that a call gets. -/
def Call.get (s : State) (c : Call) (mq : MessageQueue) : Call :=
  { c with
    lockedMqs := c.lockedMqs ++ [mq]
    disputed := if s.taken RebalanceLockMaxLiveTime c.group mq c.clientId then c.disputed ++ [mq]
      else c.disputed }

/-- The steps of the calls. The fast path looks at one queue after the other; an interrupted
`tryLock` goes on to answer `true`. -/
def act (s : State) : Action → Option State
  | .tick millis => some { s with currentTimeMillis := s.currentTimeMillis + millis }
  | .call method group mqs clientId =>
    if method = .tryLock ∧ mqs.length ≠ 1 then none
    else some { s with
      calls := s.calls ++ [{
        method, group, clientId, mqs
        stage := if method = .unlockBatch then .waiting else .checking mqs
        notLockedMqs := if method = .unlockBatch then mqs else [] }] }
  | .check i =>
    s.calls[i]?.bind fun c =>
      match c.stage with
      | .checking (mq :: mqs) =>
        match s.find c.group mq with
        | some entry =>
          if s.holds RebalanceLockMaxLiveTime c.group mq c.clientId then
            some (s.setCall i
              { c.get RebalanceLockMaxLiveTime s mq with stage := .refreshing entry mqs })
          else
            some (s.setCall i
              { c with notLockedMqs := c.notLockedMqs ++ [mq], stage := .checking mqs })
        | none =>
          some (s.setCall i
            { c with notLockedMqs := c.notLockedMqs ++ [mq], stage := .checking mqs })
      | .checking [] =>
        some (s.setCall i
          { c with stage := if c.notLockedMqs.isEmpty then .returning else .waiting })
      | _ => none
  | .refresh i =>
    s.calls[i]?.bind fun c =>
      match c.stage with
      | .refreshing entry mqs =>
        some ((s.setTimestamp entry).setCall i { c with stage := .checking mqs })
      | _ => none
  | .lockInterruptibly i =>
    s.calls[i]?.bind fun c =>
      if c.stage = .waiting ∧ s.lock = none then
        some { s.setCall i { c with stage := .locked c.notLockedMqs } with lock := some i }
      else none
  | .interrupt i =>
    s.calls[i]?.bind fun c =>
      if c.stage = .waiting then
        match c.method with
        | .tryLock =>
          some (s.setCall i
            { c.notLockedMqs.foldl (·.get RebalanceLockMaxLiveTime s ·) c with
              stage := .returning })
        | _ => some (s.setCall i { c with stage := .returning })
      else none
  | .turn i =>
    s.calls[i]?.bind fun c =>
      match c.stage with
      | .locked (mq :: mqs) =>
        if c.method = .unlockBatch then
          some ((s.unlockOne c.group mq c.clientId).setCall i { c with stage := .locked mqs })
        else
          let r := s.lockOne RebalanceLockMaxLiveTime c.group mq c.clientId
          some (r.1.setCall i
            { (if r.2 then c.get RebalanceLockMaxLiveTime s mq else c) with
              stage := .locked mqs })
      | _ => none
  | .unlock i =>
    s.calls[i]?.bind fun c =>
      match c.stage with
      | .locked [] => some { s.setCall i { c with stage := .returning } with lock := none }
      | _ => none
  | .ret i =>
    s.calls[i]?.bind fun c =>
      if c.stage = .returning then some (s.setCall i { c with stage := .returned }) else none

/-- What a call that has not returned sees of the entries of its queues. -/
def Call.observe (s : State) (c : Call) : Call :=
  if c.stage = .returned then c
  else { c with
    seen := c.seen ++
      c.mqs.filter (s.holds RebalanceLockMaxLiveTime c.group · c.clientId) }

def State.observe (s : State) : State :=
  { s with calls := s.calls.map (Call.observe RebalanceLockMaxLiveTime s) }

def step (s : State) (a : Action) : Option State :=
  (act RebalanceLockMaxLiveTime s a).map (State.observe RebalanceLockMaxLiveTime)

/-! ### The promise -/

/-- Each queue of an answer had, at a moment of the call, an entry that named the client and was
not expired; none was got while another client's entry was not expired. -/
def Sound (s : State) : Prop := ∀ c ∈ s.calls, c.stage = .returned →
  (∀ mq ∈ c.lockedMqs, mq ∈ c.seen) ∧ c.disputed = []

/-- No `tryLock` is interrupted while it waits for the lock. -/
def Uninterrupted (s : State) : Action → Prop
  | .interrupt i => ∀ c, s.calls[i]? = some c → c.method ≠ .tryLock
  | _ => True

/-! ### What the entries say -/

section

variable {RebalanceLockMaxLiveTime} {s s' : State} {group clientId : Text} {mq : MessageQueue}

/-- The entry of a queue is the client's or another's. -/
lemma not_taken_of_holds (h : s.holds RebalanceLockMaxLiveTime group mq clientId) :
    s.taken RebalanceLockMaxLiveTime group mq clientId = false := by
  rw [State.holds] at h
  rw [State.taken]
  cases he : s.entry group mq with
  | none => rfl
  | some e =>
    rw [he, Option.any_some, LockEntry.isLocked, Bool.and_eq_true, decide_eq_true_eq] at h
    rw [Option.any_some, h.1]
    simp

lemma find_getOrCreate (s : State) (group : Text) (mq : MessageQueue) (clientId : Text) :
    (s.getOrCreate group mq clientId).1.find group mq =
      some (s.getOrCreate group mq clientId).2 := by
  rw [State.getOrCreate]
  cases hfind : s.find group mq with
  | some entry => exact hfind
  | none => simp [State.find]

lemma calls_lockOne (RebalanceLockMaxLiveTime : ℕ) (s : State) (group : Text)
    (mq : MessageQueue) (clientId : Text) :
    (s.lockOne RebalanceLockMaxLiveTime group mq clientId).1.calls = s.calls := by
  have hcalls : (s.getOrCreate group mq clientId).1.calls = s.calls := by
    rw [State.getOrCreate]
    split <;> rfl
  rw [State.lockOne]
  dsimp only
  split
  · split
    · exact hcalls
    · split <;> exact hcalls
  · exact hcalls

lemma calls_unlockOne (group : Text) (mq : MessageQueue) (clientId : Text) :
    (s.unlockOne group mq clientId).calls = s.calls := by
  rw [State.unlockOne]
  split
  · split
    · split <;> rfl
    · rfl
  · rfl

/-- A client that gets a queue holds its entry then. -/
lemma holds_lockOne (h : (s.lockOne RebalanceLockMaxLiveTime group mq clientId).2 = true) :
    (s.lockOne RebalanceLockMaxLiveTime group mq clientId).1.holds RebalanceLockMaxLiveTime
      group mq clientId = true := by
  have hfind := find_getOrCreate s group mq clientId
  have hclock : (s.getOrCreate group mq clientId).1.currentTimeMillis = s.currentTimeMillis := by
    rw [State.getOrCreate]
    split <;> rfl
  rw [State.lockOne] at h ⊢
  dsimp only at h ⊢
  generalize s.getOrCreate group mq clientId = r at *
  cases he : r.1.entries[r.2]? with
  | none => simp [he] at h
  | some e =>
    have hfresh : ¬ (RebalanceLockMaxLiveTime : ℤ) < s.currentTimeMillis - s.currentTimeMillis := by
      omega
    have hlt := (List.getElem?_eq_some_iff.mp he).1
    rw [he] at h
    simp only at h ⊢
    by_cases hlocked : e.isLocked RebalanceLockMaxLiveTime s.currentTimeMillis clientId = true
    · have hname : e.clientId = clientId := by
        rw [LockEntry.isLocked, Bool.and_eq_true, decide_eq_true_eq] at hlocked
        exact hlocked.1
      rw [if_pos hlocked]
      have hentry : (r.1.setTimestamp r.2).entry group mq =
          some { e with lastUpdateTimestamp := r.1.currentTimeMillis } := by
        change ((r.1.find group mq).bind _) = _
        rw [hfind, Option.bind_some, State.setTimestamp]
        simp [he]
      rw [State.holds, hentry, Option.any_some, LockEntry.isLocked, LockEntry.isExpired]
      simp [State.setTimestamp, hname]
    · rw [if_neg hlocked] at h ⊢
      by_cases hexpired : e.isExpired RebalanceLockMaxLiveTime s.currentTimeMillis = true
      · rw [if_pos hexpired]
        have hentry : ({ r.1 with
            entries := r.1.entries.set r.2 ⟨clientId, s.currentTimeMillis⟩ } : State).entry
              group mq = some ⟨clientId, s.currentTimeMillis⟩ := by
          change ((r.1.find group mq).bind _) = _
          rw [hfind, Option.bind_some]
          exact List.getElem?_set_self hlt
        rw [State.holds, hentry, Option.any_some, LockEntry.isLocked, LockEntry.isExpired]
        simp [hclock]
      · simp [hexpired] at h

/-- It gets no queue that another client holds. -/
lemma not_taken_lockOne (h : (s.lockOne RebalanceLockMaxLiveTime group mq clientId).2 = true) :
    s.taken RebalanceLockMaxLiveTime group mq clientId = false := by
  rw [State.taken, State.entry]
  cases hfind : s.find group mq with
  | none => rfl
  | some entry =>
    rw [State.lockOne, State.getOrCreate, hfind] at h
    rw [Option.bind_some]
    cases he : s.entries[entry]? with
    | none => rfl
    | some e =>
      simp only [he] at h
      rw [Option.any_some]
      by_cases hlocked : e.isLocked RebalanceLockMaxLiveTime s.currentTimeMillis clientId = true
      · rw [LockEntry.isLocked, Bool.and_eq_true, decide_eq_true_eq] at hlocked
        simp [hlocked.1]
      · by_cases hexpired : e.isExpired RebalanceLockMaxLiveTime s.currentTimeMillis = true
        · simp [hexpired]
        · simp [hlocked, hexpired] at h

end

/-! ### The invariant -/

/-- The queues that a call is still going to look at. -/
def Stage.mqs : Stage → List MessageQueue
  | .checking mqs => mqs
  | .refreshing _ mqs => mqs
  | .locked mqs => mqs
  | _ => []

structure Call.Good (c : Call) : Prop where
  todo : ∀ mq ∈ c.stage.mqs, mq ∈ c.mqs
  notLocked : ∀ mq ∈ c.notLockedMqs, mq ∈ c.mqs
  disputed : c.disputed = []

def Inv (s : State) : Prop := ∀ c ∈ s.calls, c.Good ∧ ∀ mq ∈ c.lockedMqs, mq ∈ c.seen

/-- What holds before the calls look again: a queue that was just got is held. -/
def Before (s : State) : Prop := ∀ c ∈ s.calls, c.Good ∧ ∀ mq ∈ c.lockedMqs, mq ∈ c.seen ∨
  (c.stage ≠ .returned ∧ mq ∈ c.mqs ∧
    s.holds RebalanceLockMaxLiveTime c.group mq c.clientId = true)

section

variable {RebalanceLockMaxLiveTime} {s s' : State}

lemma inv_new (currentTimeMillis : ℤ) : Inv (newState currentTimeMillis) :=
  fun _ hc => absurd hc List.not_mem_nil

lemma Inv.sound (h : Inv s) : Sound s := fun c hc _ => ⟨(h c hc).2, (h c hc).1.disputed⟩

lemma Before.observe (h : Before RebalanceLockMaxLiveTime s) :
    Inv (s.observe RebalanceLockMaxLiveTime) := by
  intro c' hc'
  obtain ⟨c, hc, rfl⟩ := List.mem_map.mp hc'
  obtain ⟨hgood, hlocked⟩ := h c hc
  rw [Call.observe]
  split_ifs with hreturned
  · exact ⟨hgood, fun mq hmq => (hlocked mq hmq).resolve_right fun hnow => hnow.1 hreturned⟩
  · refine ⟨⟨hgood.todo, hgood.notLocked, hgood.disputed⟩, fun mq hmq => ?_⟩
    rcases hlocked mq hmq with hseen | ⟨-, hmem, hholds⟩
    · exact List.mem_append_left _ hseen
    · exact List.mem_append_right _ (List.mem_filter.mpr ⟨hmem, hholds⟩)

lemma Inv.before (h : Inv s) (hcalls : s'.calls = s.calls) :
    Before RebalanceLockMaxLiveTime s' := fun c hc =>
  ⟨(h c (hcalls ▸ hc)).1, fun mq hmq => .inl ((h c (hcalls ▸ hc)).2 mq hmq)⟩

/-- A step of one call. -/
lemma Inv.setCall (h : Inv s) {i : ℕ} {c' : Call} (hcalls : s'.calls = s.calls.set i c')
    (hgood : c'.Good) (hlocked : ∀ mq ∈ c'.lockedMqs, mq ∈ c'.seen ∨
      (c'.stage ≠ .returned ∧ mq ∈ c'.mqs ∧
        s'.holds RebalanceLockMaxLiveTime c'.group mq c'.clientId = true)) :
    Before RebalanceLockMaxLiveTime s' := by
  intro c hc
  rw [hcalls] at hc
  rcases List.mem_or_eq_of_mem_set hc with hc | rfl
  · exact ⟨(h c hc).1, fun mq hmq => .inl ((h c hc).2 mq hmq)⟩
  · exact ⟨hgood, hlocked⟩

/-- A step in which a call gets no queue. -/
lemma Inv.setStage (h : Inv s) {i : ℕ} {c : Call} (hi : s.calls[i]? = some c) {stage : Stage}
    {notLockedMqs : List MessageQueue}
    (hcalls : s'.calls = s.calls.set i { c with stage := stage, notLockedMqs := notLockedMqs })
    (htodo : ∀ mq ∈ stage.mqs, mq ∈ c.mqs) (hnot : ∀ mq ∈ notLockedMqs, mq ∈ c.mqs) :
    Before RebalanceLockMaxLiveTime s' := by
  obtain ⟨hgood, hlocked⟩ := h c (List.mem_of_getElem? hi)
  exact h.setCall hcalls ⟨htodo, hnot, hgood.disputed⟩ fun mq hmq => .inl (hlocked mq hmq)

/-- A step in which a call gets a queue. -/
lemma Inv.get (h : Inv s) {i : ℕ} {c : Call} (hi : s.calls[i]? = some c) {mq : MessageQueue}
    {stage : Stage} (hstage : stage ≠ .returned)
    (hcalls : s'.calls =
      s.calls.set i { c.get RebalanceLockMaxLiveTime s mq with stage := stage })
    (htodo : ∀ mq ∈ stage.mqs, mq ∈ c.mqs) (hmem : mq ∈ c.mqs)
    (hfree : s.taken RebalanceLockMaxLiveTime c.group mq c.clientId = false)
    (hholds : s'.holds RebalanceLockMaxLiveTime c.group mq c.clientId = true) :
    Before RebalanceLockMaxLiveTime s' := by
  obtain ⟨hgood, hlocked⟩ := h c (List.mem_of_getElem? hi)
  refine h.setCall hcalls ⟨htodo, hgood.notLocked, ?_⟩ fun mq' hmq' => ?_
  · simp only [Call.get, hfree]
    exact hgood.disputed
  · rcases List.mem_append.mp hmq' with hmq' | hmq'
    · exact .inl (hlocked mq' hmq')
    · rw [List.mem_singleton.mp hmq']
      exact .inr ⟨hstage, hmem, hholds⟩

lemma Inv.check (h : Inv s) {i : ℕ}
    (hs : act RebalanceLockMaxLiveTime s (.check i) = some s') :
    Before RebalanceLockMaxLiveTime s' := by
  obtain ⟨c, hi, hs⟩ := Option.bind_eq_some_iff.mp hs
  have hgood := (h c (List.mem_of_getElem? hi)).1
  cases hstage : c.stage with
  | checking l =>
    have htodo : ∀ mq ∈ l, mq ∈ c.mqs := fun mq hmq => hgood.todo mq (by rwa [hstage])
    cases l with
    | nil =>
      simp only [hstage, Option.some.injEq] at hs
      subst hs
      refine h.setStage hi rfl (fun mq hmq => ?_) hgood.notLocked
      split_ifs at hmq <;> exact absurd hmq List.not_mem_nil
    | cons mq mqs =>
      have hrest : ∀ mq' ∈ mqs, mq' ∈ c.mqs := fun mq' hmq' =>
        htodo mq' (List.mem_cons_of_mem mq hmq')
      have hnot : ∀ mq' ∈ c.notLockedMqs ++ [mq], mq' ∈ c.mqs := by
        intro mq' hmq'
        rcases List.mem_append.mp hmq' with hmq' | hmq'
        · exact hgood.notLocked mq' hmq'
        · exact htodo mq' (List.mem_cons.mpr (.inl (List.mem_singleton.mp hmq')))
      simp only [hstage] at hs
      split at hs
      · split_ifs at hs with hholds
        · cases hs
          exact h.get hi (by simp) rfl hrest (htodo mq List.mem_cons_self)
            (not_taken_of_holds hholds) hholds
        · cases hs
          exact h.setStage hi rfl hrest hnot
      · cases hs
        exact h.setStage hi rfl hrest hnot
  | _ => simp [hstage] at hs

lemma Inv.turn (h : Inv s) {i : ℕ} (hs : act RebalanceLockMaxLiveTime s (.turn i) = some s') :
    Before RebalanceLockMaxLiveTime s' := by
  obtain ⟨c, hi, hs⟩ := Option.bind_eq_some_iff.mp hs
  have hgood := (h c (List.mem_of_getElem? hi)).1
  cases hstage : c.stage with
  | locked l =>
    cases l with
    | nil => simp [hstage] at hs
    | cons mq mqs =>
      have htodo : ∀ mq' ∈ mq :: mqs, mq' ∈ c.mqs := fun mq' hmq' =>
        hgood.todo mq' (by rwa [hstage])
      have hrest : ∀ mq' ∈ mqs, mq' ∈ c.mqs := fun mq' hmq' =>
        htodo mq' (List.mem_cons_of_mem mq hmq')
      simp only [hstage] at hs
      split_ifs at hs with hunlock hgot
      · cases hs
        have hcalls := congrArg (fun calls : List Call => calls.set i { c with
          stage := .locked mqs }) (calls_unlockOne (s := s) c.group mq c.clientId)
        exact h.setStage hi hcalls hrest hgood.notLocked
      · cases hs
        have hcalls := congrArg (fun calls : List Call => calls.set i {
          c.get RebalanceLockMaxLiveTime s mq with stage := .locked mqs })
          (calls_lockOne RebalanceLockMaxLiveTime s c.group mq c.clientId)
        exact h.get hi (by simp) hcalls hrest (htodo mq List.mem_cons_self)
          (not_taken_lockOne hgot) (holds_lockOne hgot)
      · cases hs
        have hcalls := congrArg (fun calls : List Call => calls.set i { c with
          stage := .locked mqs }) (calls_lockOne RebalanceLockMaxLiveTime s c.group mq c.clientId)
        exact h.setStage hi hcalls hrest hgood.notLocked
  | _ => simp [hstage] at hs

lemma before_act {a : Action} (h : Inv s) (hok : Uninterrupted s a)
    (hs : act RebalanceLockMaxLiveTime s a = some s') : Before RebalanceLockMaxLiveTime s' := by
  cases a with
  | tick millis =>
    cases hs
    exact h.before rfl
  | call method group mqs clientId =>
    obtain ⟨-, hs⟩ := Option.ite_none_left_eq_some.mp hs
    cases hs
    intro c hc
    rcases List.mem_append.mp hc with hc | hc
    · exact ⟨(h c hc).1, fun mq hmq => .inl ((h c hc).2 mq hmq)⟩
    · rw [List.mem_singleton.mp hc]
      refine ⟨⟨fun mq hmq => ?_, fun mq hmq => ?_, rfl⟩, fun mq hmq => absurd hmq List.not_mem_nil⟩
      · dsimp only at hmq
        split_ifs at hmq
        · exact absurd hmq List.not_mem_nil
        · exact hmq
      · dsimp only at hmq
        split_ifs at hmq
        · exact hmq
        · exact absurd hmq List.not_mem_nil
  | check i => exact h.check hs
  | refresh i =>
    obtain ⟨c, hi, hs⟩ := Option.bind_eq_some_iff.mp hs
    have hgood := (h c (List.mem_of_getElem? hi)).1
    cases hstage : c.stage with
    | refreshing entry mqs =>
      simp only [hstage, Option.some.injEq] at hs
      subst hs
      exact h.setStage hi rfl (fun mq hmq => hgood.todo mq (by rwa [hstage])) hgood.notLocked
    | _ => simp [hstage] at hs
  | lockInterruptibly i =>
    obtain ⟨c, hi, hs⟩ := Option.bind_eq_some_iff.mp hs
    have hgood := (h c (List.mem_of_getElem? hi)).1
    obtain ⟨-, hs⟩ := Option.ite_none_right_eq_some.mp hs
    cases hs
    exact h.setStage hi rfl hgood.notLocked hgood.notLocked
  | interrupt i =>
    obtain ⟨c, hi, hs⟩ := Option.bind_eq_some_iff.mp hs
    have hgood := (h c (List.mem_of_getElem? hi)).1
    obtain ⟨-, hs⟩ := Option.ite_none_right_eq_some.mp hs
    split at hs
    · exact absurd ‹c.method = .tryLock› (hok c hi)
    · cases hs
      exact h.setStage hi rfl (fun mq hmq => absurd hmq List.not_mem_nil) hgood.notLocked
  | turn i => exact h.turn hs
  | unlock i =>
    obtain ⟨c, hi, hs⟩ := Option.bind_eq_some_iff.mp hs
    have hgood := (h c (List.mem_of_getElem? hi)).1
    split at hs
    · cases hs
      exact h.setStage hi rfl (fun mq hmq => absurd hmq List.not_mem_nil) hgood.notLocked
    · cases hs
  | ret i =>
    obtain ⟨c, hi, hs⟩ := Option.bind_eq_some_iff.mp hs
    have hgood := (h c (List.mem_of_getElem? hi)).1
    obtain ⟨-, hs⟩ := Option.ite_none_right_eq_some.mp hs
    cases hs
    exact h.setStage hi rfl (fun mq hmq => absurd hmq List.not_mem_nil) hgood.notLocked

theorem inv_step {a : Action} (h : Inv s) (hok : Uninterrupted s a)
    (hs : step RebalanceLockMaxLiveTime s a = some s') : Inv s' := by
  obtain ⟨s'', hact, rfl⟩ := Option.map_eq_some_iff.mp hs
  exact (before_act h hok hact).observe

end

/-- **Mutual exclusion.** While no `tryLock` is interrupted, every queue of an answer had an entry
that named the client and was not expired during the call, and none was got against an entry of
another client that was not expired. -/
theorem locks_exclusive (RebalanceLockMaxLiveTime : ℕ) (currentTimeMillis : ℤ) (as : List Action)
    (s : State) (hm : Meets (step RebalanceLockMaxLiveTime) Uninterrupted
      (newState currentTimeMillis) as)
    (hr : run (step RebalanceLockMaxLiveTime) (newState currentTimeMillis) as = some s) :
    Sound s :=
  (run_invariant (fun _ _ _ => inv_step) (inv_new currentTimeMillis) hm hr).sound

/-- The state after a run. -/
def after (as : List Action) : State := (run (step 60000) (newState 0) as).getD (newState 0)

def queue : MessageQueue := ⟨['t'], ['b'], 0⟩

/-- The steps of a `tryLock` that finds the queue not locked by its client and gets the lock. -/
def slowPath (i : ℕ) : List Action :=
  [.check i, .check i, .lockInterruptibly i, .turn i, .unlock i, .ret i]

/-- A client gets a queue; another one tries, and tries again when the lock has expired. -/
def expiredLock : List Action :=
  .call .tryLock ['g'] [queue] ['c'] :: slowPath 0 ++
    .call .tryLock ['g'] [queue] ['d'] :: slowPath 1 ++ .tick 60001 ::
    .call .tryLock ['g'] [queue] ['d'] :: slowPath 2

/-- No step of a run is an interrupt. -/
lemma meets_of_no_interrupt {RebalanceLockMaxLiveTime : ℕ} {s : State} {as : List Action}
    (h : as.all fun a => match a with | .interrupt _ => false | _ => true) :
    Meets (step RebalanceLockMaxLiveTime) Uninterrupted s as := by
  induction as generalizing s with
  | nil => trivial
  | cons a as ih =>
    rw [List.all_cons, Bool.and_eq_true] at h
    refine ⟨?_, fun s' _ => ih h.2⟩
    cases a with
    | interrupt i => exact absurd h.1 (by simp)
    | _ => trivial

theorem locks_exclusive_expired : Sound (after expiredLock) :=
  locks_exclusive 60000 0 expiredLock _ (meets_of_no_interrupt (by decide)) rfl

/-- A client gets a queue; another one is interrupted while it waits for the lock. -/
def interruptedLock : List Action :=
  .call .tryLock ['g'] [queue] ['c'] :: slowPath 0 ++
    [.call .tryLock ['g'] [queue] ['d'], .check 1, .check 1, .interrupt 1, .ret 1]

theorem locks_interrupted : ¬ ∀ as s, run (step 60000) (newState 0) as = some s → Sound s := by
  intro h
  have hsound := h interruptedLock (after interruptedLock) rfl
  have hanswer : ∃ c ∈ (after interruptedLock).calls, c.stage = .returned ∧
      c.disputed = [queue] := by decide
  obtain ⟨c, hc, hreturned, hdisputed⟩ := hanswer
  rw [(hsound c hc hreturned).2] at hdisputed
  cases hdisputed

end CloudMQ.RebalanceLock
