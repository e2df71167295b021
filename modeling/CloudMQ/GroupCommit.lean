import CloudMQ.Runs
import CloudMQ.CommitLog

/-!
`CommitLog.putMessage` in small steps, with the two services that wake its callers:
`GroupCommitService`, which forces the log, and `GroupTransferService`, which waits for the
slave.

A call appends under the lock, then waits for the disk and then for the slave. Both waits use
one request, which the call owns; the services hold the numbers of the calls they serve. Every
access to shared state is a step of its own, so that calls, services and acknowledgements of the
slave interleave freely.
-/

namespace CloudMQ.GroupCommit

open CloudMQ.Buffer CloudMQ.Message CloudMQ.Record CloudMQ.Segment CloudMQ.CommitLog CloudMQ.Runs

structure SyncConfig extends MessageStoreConfig where
  haSlaveFallbehindMax : ℤ

structure GroupCommitRequest where
  nextOffset : ℕ
  /-- the latch is open -/
  countDownLatch : Bool := false
  flushOK : Bool := false
  deriving DecidableEq

/-- Where a call of `putMessage` stands. -/
inductive Pc
  /-- before the lock -/
  | start
  /-- in the lock, before `getLastMapedFile`; the result of the first append, if there was one -/
  | getLast (first : Option AppendMessageResult)
  | append (first : Option AppendMessageResult)
  /-- behind the lock -/
  | stored (result : AppendMessageResult)
  | waitFlush (result : AppendMessageResult)
  | flushed (result : AppendMessageResult) (status : PutMessageStatus)
  | waitSlave (result : AppendMessageResult) (status : PutMessageStatus)
  | returned (result : AppendMessageResult) (status : PutMessageStatus)
  /-- an early return -/
  | failed (status : PutMessageStatus) (result : Option AppendMessageResult)
  | thrown (e : Thrown)

/-- A call with the message as it is serialised. -/
structure Call where
  env : Env
  message : MessageExtBrokerInner
  pc : Pc
  request : Option GroupCommitRequest := none

def Call.updateRequest (f : GroupCommitRequest → GroupCommitRequest) (call : Call) : Call :=
  { call with request := call.request.map f }

/-- The service threads. `commit` and `commitOnly` are of the group commit only. -/
inductive ServicePc
  | waiting
  /-- nobody waits: one commit -/
  | commitOnly
  /-- the first request is compared, for the `i`-th time -/
  | check (i : ℕ)
  | commit (i : ℕ)
  /-- `wakeupCustomer`: the flag, then the latch -/
  | setOK (ok : Bool)
  | countDown
  deriving DecidableEq

/-- `requestsRead` holds the requests that are still to be served, the current one first. -/
structure Service where
  requestsWrite : List ℕ := []
  requestsRead : List ℕ := []
  pc : ServicePc := .waiting

namespace Service

/-- The next request is taken up, or the service waits again. -/
def next (service : Service) : Service :=
  { service with
    requestsRead := service.requestsRead.tail
    pc := if service.requestsRead.tail = [] then .waiting else .check 0 }

def swapRequests (service : Service) (empty : ServicePc) : Service :=
  { requestsWrite := service.requestsRead
    requestsRead := service.requestsWrite
    pc := if service.requestsWrite = [] then empty else .check 0 }

end Service

structure State where
  commitLog : Log
  lock : Option ℕ := none
  calls : ℕ → Option Call := fun _ => none
  groupCommit : Service := {}
  groupTransfer : Service := {}
  push2SlaveMaxOffset : ℕ := 0
  connectionCount : ℕ := 0

def nextOffset (result : AppendMessageResult) : ℕ := result.wroteOffset + result.wroteBytes

namespace State

variable (cfg : SyncConfig) (s : State)

abbrev mapedFileQueue : MapedFileQueue Bytes := s.commitLog.mapedFileQueue

def setCall (c : ℕ) (call : Call) : State :=
  { s with calls := Function.update s.calls c (some call) }

def setQueue (q : MapedFileQueue Bytes) : State :=
  { s with commitLog := { s.commitLog with mapedFileQueue := q } }

def setPc (c : ℕ) (call : Call) (pc : Pc) : State := s.setCall c { call with pc := pc }

/-! ### The calls -/

def callStep (c : ℕ) (env : Env) (m : MessageExtBrokerInner) : Option State :=
  match s.calls c with
  | some _ => none
  | none =>
    match prepare cfg.toMessageStoreConfig env m with
    | none => some (s.setCall c ⟨env, m, .thrown .numberFormat, none⟩)
    | some (m, _) => some (s.setCall c ⟨env, stamp env m, .start, none⟩)

def lockStep (c : ℕ) (call : Call) : Option State :=
  match s.lock, call.pc with
  | none, .start => some { s.setPc c call (.getLast none) with lock := some c }
  | _, _ => none

/-- `getLastMapedFile`, for the first append or the second. -/
def getLastStep (c : ℕ) (call : Call) : Option State :=
  match call.pc with
  | .getLast first =>
    let fresh := if first.isSome then call.env.mapedFile2 else call.env.mapedFile1
    match s.mapedFileQueue.getLastMapedFile 0
        (fresh.map (mapMemory s.mapedFileQueue.mapedFileSize)) with
    | (none, q) =>
      some { (s.setQueue q).setPc c call (.failed .CREATE_MAPEDFILE_FAILED first) with
        lock := none }
    | (some _, q) => some ((s.setQueue q).setPc c call (.append first))
  | _ => none

/-- Where a call goes from an append with the given result, and whether it keeps the lock. The
result of the second append is taken as it is. -/
def afterAppend (first : Option AppendMessageResult) (result : AppendMessageResult) : Pc × Bool :=
  match first, result.status with
  | some _, _ => (.stored result, false)
  | none, .PUT_OK => (.stored result, false)
  | none, .END_OF_FILE => (.getLast (some result), true)
  | none, .MESSAGE_SIZE_EXCEEDED => (.failed .MESSAGE_ILLEGAL (some result), false)
  | none, .UNKNOWN_ERROR => (.failed .UNKNOWN_ERROR (some result), false)

def appendStep (c : ℕ) (call : Call) : Option State :=
  match call.pc, s.mapedFileQueue.mapedFiles.getLast? with
  | .append first, some f =>
    let memory := if first.isSome then call.env.msgStoreItemMemory2
      else call.env.msgStoreItemMemory1
    match appendMessage cfg.maxMessageSize memory s.mapedFileQueue.mapedFileSize f call.message
        s.commitLog.counters with
    | (counters, .error e) =>
      some { s.setPc c call (.thrown e) with
        commitLog := { s.commitLog with counters := counters }, lock := none }
    | (counters, .ok (result, f')) =>
      let after := afterAppend first result
      some { s.setPc c call after.1 with
        commitLog := ⟨s.mapedFileQueue.setLast f', counters⟩
        lock := if after.2 then s.lock else none }
  | _, _ => none

/-- The flush part: a caller that waits puts a request. -/
def flushStep (c : ℕ) (call : Call) : Option State :=
  match call.pc with
  | .stored result =>
    if cfg.flushDiskType = .SYNC_FLUSH ∧ call.message.isWaitStoreMsgOK then
      some { s.setCall c { call with pc := .waitFlush result
                                     request := some { nextOffset := nextOffset result } } with
        groupCommit := { s.groupCommit with requestsWrite := s.groupCommit.requestsWrite ++ [c] } }
    else some (s.setPc c call (.flushed result .PUT_OK))
  | _ => none

def isSlaveOK (masterPutWhere : ℕ) : Bool :=
  decide (0 < s.connectionCount) &&
    decide ((masterPutWhere : ℤ) - s.push2SlaveMaxOffset < cfg.haSlaveFallbehindMax)

/-- The replication part: the request of the flush part is used again, if there is one. -/
def slaveStep (c : ℕ) (call : Call) : Option State :=
  match call.pc with
  | .flushed result status =>
    if cfg.brokerRole = .SYNC_MASTER ∧ call.message.isWaitStoreMsgOK then
      if s.isSlaveOK cfg (nextOffset result) then
        some { s.setCall c { call with
                 pc := .waitSlave result status
                 request := some (call.request.getD { nextOffset := nextOffset result }) } with
          groupTransfer :=
            { s.groupTransfer with requestsWrite := s.groupTransfer.requestsWrite ++ [c] } }
      else some (s.setPc c call (.returned result .SLAVE_NOT_AVAILABLE))
    else some (s.setPc c call (.returned result status))
  | _ => none

/-- What `waitForFlush` makes of its answer. -/
def afterWait (pc : Pc) (answer : Bool) : Option Pc :=
  match pc with
  | .waitFlush result => some (.flushed result (if answer then .PUT_OK else .FLUSH_DISK_TIMEOUT))
  | .waitSlave result status =>
    some (.returned result (if answer then status else .FLUSH_SLAVE_TIMEOUT))
  | _ => none

/-- `await` finds the latch open, and the flag does not count. -/
def wakeStep (c : ℕ) (call : Call) : Option State :=
  match call.request with
  | some r => if r.countDownLatch then (afterWait call.pc true).map (s.setPc c call) else none
  | none => none

/-- `await` timed out, and the flag is read. -/
def timeoutStep (c : ℕ) (call : Call) : Option State :=
  match call.request with
  | some r => (afterWait call.pc r.flushOK).map (s.setPc c call)
  | none => none

/-! ### The services -/

/-- The request of a call. -/
def requestOf (c : ℕ) : Option GroupCommitRequest := (s.calls c).bind Call.request

def setRequest (c : ℕ) (f : GroupCommitRequest → GroupCommitRequest) : State :=
  { s with calls := Function.update s.calls c ((s.calls c).map (Call.updateRequest f)) }

/-- `GroupCommitService`: `swapRequests` and `doCommit`. -/
def groupCommitStep : Option State :=
  let service := s.groupCommit
  match service.pc with
  | .waiting => some { s with groupCommit := service.swapRequests .commitOnly }
  | .commitOnly =>
    some { s.setQueue (s.mapedFileQueue.commit 0) with
      groupCommit := { service with pc := .waiting } }
  | .check i => do
    let c ← service.requestsRead.head?
    let r ← s.requestOf c
    let flushOK := decide (r.nextOffset ≤ s.mapedFileQueue.committedWhere)
    return { s with
      groupCommit := { service with pc := if flushOK then .setOK true else .commit i } }
  | .commit i =>
    some { s.setQueue (s.mapedFileQueue.commit 0) with
      groupCommit := { service with pc := if i + 1 < 2 then .check (i + 1) else .setOK false } }
  | .setOK ok => do
    let c ← service.requestsRead.head?
    return { s.setRequest c (fun r => { r with flushOK := ok }) with
      groupCommit := { service with pc := .countDown } }
  | .countDown => do
    let c ← service.requestsRead.head?
    return { s.setRequest c (fun r => { r with countDownLatch := true }) with
      groupCommit := service.next }

/-- `GroupTransferService`: `swapRequests` and `doWaitTransfer`. -/
def groupTransferStep : Option State :=
  let service := s.groupTransfer
  match service.pc with
  | .waiting => some { s with groupTransfer := service.swapRequests .waiting }
  | .check i => do
    let c ← service.requestsRead.head?
    let r ← s.requestOf c
    let transferOK := decide (r.nextOffset ≤ s.push2SlaveMaxOffset)
    return { s with
      groupTransfer := { service with
        pc := if transferOK then .setOK true else if i < 5 then .check (i + 1) else .setOK false } }
  | .setOK ok => do
    let c ← service.requestsRead.head?
    return { s.setRequest c (fun r => { r with flushOK := ok }) with
      groupTransfer := { service with pc := .countDown } }
  | .countDown => do
    let c ← service.requestsRead.head?
    return { s.setRequest c (fun r => { r with countDownLatch := true }) with
      groupTransfer := service.next }
  | _ => none

end State

/-! ### The machine -/

inductive Action
  /-- `putMessage` is called, up to the lock -/
  | call (c : ℕ) (env : Env) (m : MessageExtBrokerInner)
  | lock (c : ℕ)
  | getLastMapedFile (c : ℕ)
  | appendMessage (c : ℕ)
  | flush (c : ℕ)
  | slave (c : ℕ)
  /-- a wait ends -/
  | wake (c : ℕ)
  | timeout (c : ℕ)
  | groupCommit
  | groupTransfer
  /-- the slave acknowledges -/
  | notifyTransferSome (offset : ℕ)
  | connections (n : ℕ)

def step (cfg : SyncConfig) (s : State) : Action → Option State
  | .call c env m => s.callStep cfg c env m
  | .lock c => (s.calls c).bind (s.lockStep c)
  | .getLastMapedFile c => (s.calls c).bind (s.getLastStep c)
  | .appendMessage c => (s.calls c).bind (s.appendStep cfg c)
  | .flush c => (s.calls c).bind (s.flushStep cfg c)
  | .slave c => (s.calls c).bind (s.slaveStep cfg c)
  | .wake c => (s.calls c).bind (s.wakeStep c)
  | .timeout c => (s.calls c).bind (s.timeoutStep c)
  | .groupCommit => s.groupCommitStep
  | .groupTransfer => s.groupTransferStep
  | .notifyTransferSome offset =>
    some { s with push2SlaveMaxOffset := max s.push2SlaveMaxOffset offset }
  | .connections n => some { s with connectionCount := n }

/-! ### The answers -/

section Answers

variable {cfg : SyncConfig} {s s' : State}

/-- The statuses a stored message may come to. -/
def Answer (cfg : SyncConfig) : Pc → Prop
  | .flushed _ status => status = .PUT_OK ∨ status = .FLUSH_DISK_TIMEOUT
  | .waitSlave _ status =>
    cfg.brokerRole = .SYNC_MASTER ∧ (status = .PUT_OK ∨ status = .FLUSH_DISK_TIMEOUT)
  | .returned _ status => (status = .PUT_OK ∨ status = .FLUSH_DISK_TIMEOUT) ∨
      cfg.brokerRole = .SYNC_MASTER ∧
        (status = .FLUSH_SLAVE_TIMEOUT ∨ status = .SLAVE_NOT_AVAILABLE)
  | _ => True

def Answers (cfg : SyncConfig) (s : State) : Prop :=
  ∀ c call, s.calls c = some call → Answer cfg call.pc

lemma Answers.update (h : Answers cfg s) {c : ℕ} {call : Call}
    (hcalls : s'.calls = Function.update s.calls c (some call)) (ha : Answer cfg call.pc) :
    Answers cfg s' := by
  intro c' call' hc'
  rw [hcalls] at hc'
  by_cases hc : c' = c
  · subst hc
    rw [Function.update_self, Option.some.injEq] at hc'
    exact hc' ▸ ha
  · rw [Function.update_of_ne hc] at hc'
    exact h c' call' hc'

lemma Answers.setRequest (h : Answers cfg s) (c : ℕ)
    (f : GroupCommitRequest → GroupCommitRequest) : Answers cfg (s.setRequest c f) := by
  intro c' call' hc'
  by_cases hc : c' = c
  · subst hc
    simp only [State.setRequest, Function.update_self, Option.map_eq_some_iff] at hc'
    obtain ⟨call, hcall, rfl⟩ := hc'
    exact h c' call hcall
  · simp only [State.setRequest, Function.update_of_ne hc] at hc'
    exact h c' call' hc'

lemma Answers.afterWait (h : Answers cfg s) {c : ℕ} {call : Call} (hc : s.calls c = some call)
    {answer : Bool} (hs : (State.afterWait call.pc answer).map (s.setPc c call) = some s') :
    Answers cfg s' := by
  obtain ⟨pc, hpc, rfl⟩ := Option.map_eq_some_iff.mp hs
  refine h.update rfl ?_
  have hold := h c call hc
  cases hcall : call.pc with
  | waitFlush result =>
    simp only [State.afterWait, hcall, Option.some.injEq] at hpc
    subst hpc
    cases answer
    · exact .inr rfl
    · exact .inl rfl
  | waitSlave result status =>
    simp only [State.afterWait, hcall, Option.some.injEq] at hpc
    rw [hcall] at hold
    subst hpc
    cases answer
    · exact .inr ⟨hold.1, .inl rfl⟩
    · exact .inl hold.2
  | _ => simp [State.afterWait, hcall] at hpc

/-- The group commit and the transfer service leave every call where it stands. -/
lemma Answers.services (h : Answers cfg s)
    (hs : s.groupCommitStep = some s' ∨ s.groupTransferStep = some s') : Answers cfg s' := by
  rcases hs with hs | hs
  · unfold State.groupCommitStep at hs
    simp only at hs
    split at hs
    · cases hs; exact h
    · cases hs; exact h
    · obtain ⟨c, -, hs⟩ := Option.bind_eq_some_iff.mp hs
      obtain ⟨r, -, hs⟩ := Option.bind_eq_some_iff.mp hs
      cases hs; exact h
    · cases hs; exact h
    · obtain ⟨c, -, hs⟩ := Option.bind_eq_some_iff.mp hs
      cases hs; exact h.setRequest c _
    · obtain ⟨c, -, hs⟩ := Option.bind_eq_some_iff.mp hs
      cases hs; exact h.setRequest c _
  · unfold State.groupTransferStep at hs
    simp only at hs
    split at hs
    · cases hs; exact h
    · obtain ⟨c, -, hs⟩ := Option.bind_eq_some_iff.mp hs
      obtain ⟨r, -, hs⟩ := Option.bind_eq_some_iff.mp hs
      cases hs; exact h
    · obtain ⟨c, -, hs⟩ := Option.bind_eq_some_iff.mp hs
      cases hs; exact h.setRequest c _
    · obtain ⟨c, -, hs⟩ := Option.bind_eq_some_iff.mp hs
      cases hs; exact h.setRequest c _
    · exact absurd hs (by simp)

/-- The locked part ends in no answer yet. -/
lemma Answers.locked (h : Answers cfg s) {c : ℕ} {call : Call}
    (hs : s.lockStep c call = some s' ∨ s.getLastStep c call = some s' ∨
      s.appendStep cfg c call = some s') : Answers cfg s' := by
  rcases hs with hs | hs | hs
  · unfold State.lockStep at hs
    split at hs
    · cases hs; exact h.update rfl trivial
    · exact absurd hs (by simp)
  · unfold State.getLastStep at hs
    split at hs
    · simp only at hs
      split at hs <;> cases hs <;> exact h.update rfl trivial
    · exact absurd hs (by simp)
  · unfold State.appendStep at hs
    split at hs
    · simp only at hs
      split at hs <;> cases hs
      · exact h.update rfl trivial
      · refine h.update rfl ?_
        simp only [State.afterAppend]
        split <;> trivial
    · exact absurd hs (by simp)

lemma Answers.slave (h : Answers cfg s) {c : ℕ} {call : Call} (hc : s.calls c = some call)
    (hs : s.slaveStep cfg c call = some s') : Answers cfg s' := by
  have hold := h c call hc
  unfold State.slaveStep at hs
  split at hs
  · next result status hpc =>
    rw [hpc] at hold
    split at hs
    · next hrole =>
      split at hs <;> cases hs
      · exact h.update rfl ⟨hrole.1, hold⟩
      · exact h.update rfl (.inr ⟨hrole.1, .inr rfl⟩)
    · cases hs
      exact h.update rfl (.inl hold)
  · exact absurd hs (by simp)

lemma step_answers {a : Action} (h : Answers cfg s) (hs : step cfg s a = some s') :
    Answers cfg s' := by
  cases a with
  | call c env m =>
    change s.callStep cfg c env m = some s' at hs
    unfold State.callStep at hs
    split at hs
    · exact absurd hs (by simp)
    · split at hs <;> cases hs <;> exact h.update rfl trivial
  | lock c =>
    obtain ⟨call, hc, hs⟩ := Option.bind_eq_some_iff.mp hs
    exact h.locked (.inl hs)
  | getLastMapedFile c =>
    obtain ⟨call, hc, hs⟩ := Option.bind_eq_some_iff.mp hs
    exact h.locked (.inr (.inl hs))
  | appendMessage c =>
    obtain ⟨call, hc, hs⟩ := Option.bind_eq_some_iff.mp hs
    exact h.locked (.inr (.inr hs))
  | flush c =>
    obtain ⟨call, hc, hs⟩ := Option.bind_eq_some_iff.mp hs
    unfold State.flushStep at hs
    split at hs
    · split at hs <;> cases hs
      · exact h.update rfl trivial
      · exact h.update rfl (.inl rfl)
    · exact absurd hs (by simp)
  | slave c =>
    obtain ⟨call, hc, hs⟩ := Option.bind_eq_some_iff.mp hs
    exact h.slave hc hs
  | wake c =>
    obtain ⟨call, hc, hs⟩ := Option.bind_eq_some_iff.mp hs
    unfold State.wakeStep at hs
    split at hs
    · split at hs
      · exact h.afterWait hc hs
      · exact absurd hs (by simp)
    · exact absurd hs (by simp)
  | timeout c =>
    obtain ⟨call, hc, hs⟩ := Option.bind_eq_some_iff.mp hs
    unfold State.timeoutStep at hs
    split at hs
    · exact h.afterWait hc hs
    · exact absurd hs (by simp)
  | groupCommit => exact h.services (.inl hs)
  | groupTransfer => exact h.services (.inr hs)
  | notifyTransferSome offset => cases hs; exact h
  | connections n => cases hs; exact h

end Answers

end CloudMQ.GroupCommit
