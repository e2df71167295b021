import CloudMQ.Lists
import CloudMQ.Runs
import CloudMQ.Utf8

/-!
Requests and responses: the calls of a client, what the server makes of them, and what comes back.

A request carries a number that the client takes from a counter, and a response carries the number
of its request; the client knows the calls that wait by these numbers. Messages may be lost and may
overtake each other, calls may time out, and a server may answer much later, or not at all.
-/

namespace CloudMQ.Invocations

open CloudMQ.Lists CloudMQ.Runs CloudMQ.Utf8

variable {α β : Type}

/-! ### Calls -/

/-- `invokeSyncImpl`, `invokeAsyncImpl`, with a callback or without, and `invokeOnewayImpl`. -/
inductive Kind
  | sync
  | async (invokeCallback : Bool)
  | oneway
deriving DecidableEq

/-- How far the caller has come. Only a synchronous call waits. -/
inductive Stage
  | created
  | put
  | waiting
  | returning
  | over
deriving DecidableEq

inductive Written
  | no
  | pending
  | ok
  | failed
deriving DecidableEq

/-- The response of a processor, or what the remoting layer answers itself. -/
inductive Answer (β : Type)
  | response (b : β)
  | systemError (remark : Text)
  | systemBusy
  | requestCodeNotSupported
deriving DecidableEq

inductive Thrown
  | remotingTimeoutException
  | remotingSendRequestException
deriving DecidableEq

/-- A call with its `ResponseFuture`. `id` is its place among the commands that were created. -/
structure Call (α β : Type) where
  id : ℕ
  kind : Kind
  request : α
  stage : Stage := .created
  written : Written := .no
  sendRequestOK : Bool := true
  responseCommand : Option (Answer β) := none
  executeCallbackOnlyOnce : Bool := false
  /-- what a synchronous call returned -/
  returned : Option (Except Thrown (Answer β)) := none
  /-- what the callback found when it was executed -/
  completed : List (Option (Answer β)) := []

namespace Call

/-- `RemotingCommand.RequestId` is an `AtomicInteger`. -/
def opaqueId (c : Call α β) : Int32 := Int32.ofNat c.id

def executeInvokeCallback (c : Call α β) : Call α β :=
  if c.kind = .async true ∧ ¬ c.executeCallbackOnlyOnce then
    { c with executeCallbackOnlyOnce := true, completed := c.completed ++ [c.responseCommand] }
  else c

def setResponseCommand (a : Option (Answer β)) (c : Call α β) : Call α β :=
  { c with responseCommand := a }

/-- The listener, when the write has failed. -/
def writeFailed (c : Call α β) : Call α β :=
  let c := { c with written := .failed, sendRequestOK := false }
  match c.kind with
  | .sync => c.setResponseCommand none
  | .async _ => (c.setResponseCommand none).executeInvokeCallback
  | .oneway => c

/-- `waitResponse` is over, and the call returns or throws. -/
def wake (c : Call α β) : Call α β :=
  { c with
    stage := .returning
    returned := some (match c.responseCommand with
      | some a => .ok a
      | none => .error (if c.sendRequestOK then .remotingTimeoutException
          else .remotingSendRequestException)) }

end Call

/-! ### The system -/

structure Request (α : Type) where
  opaqueId : Int32
  content : α
  isOnewayRPC : Bool

/-- `processResponseCommand` sets the response, removes the entry, and completes the call. -/
inductive Progress
  | set
  | remove
  | complete
deriving DecidableEq

/-- Threads of the client that have found a future in the table: with a response, or because it
timed out. -/
inductive Task (β : Type)
  | respond (i : ℕ) (opaqueId : Int32) (a : Answer β) (p : Progress)
  | expire (i : ℕ)

/-- The call of the future. -/
def Task.call : Task β → ℕ
  | .respond i _ _ _ => i
  | .expire i => i

structure State (α β : Type) where
  /-- the commands that were created -/
  created : ℕ
  calls : List (Call α β)
  /-- the calls that wait, by number -/
  responseTable : Int32 → Option ℕ
  tasks : List (Task β)
  /-- on the way to the server -/
  requests : List (Request α)
  /-- handed to an executor of the server -/
  submitted : List (Request α)
  /-- the processor answers them itself, later or never -/
  held : List (Request α)
  /-- on the way back -/
  responses : List (Int32 × Answer β)
  /-- all the answers the server has made, with their requests -/
  answers : List (Int32 × α × Answer β)

def newState : State α β := ⟨0, [], fun _ => none, [], [], [], [], [], []⟩

/-- What `processRequest` does. -/
inductive Result (β : Type)
  | returns (b : β)
  | returnsNull
  | throws (remark : Text)

inductive Action (α β : Type)
  | invoke (kind : Kind) (request : α)
  /-- another command is created -/
  | create
  | put (i : ℕ)
  | write (i : ℕ)
  | flush (i : ℕ)
  | writeFails (i : ℕ)
  | wake (i : ℕ)
  | finish (i : ℕ)
  | receive (j : ℕ)
  | scan (opaqueId : Int32)
  | advance (t : ℕ)
  | accept (j : ℕ) (rejected : Bool)
  | serve (j : ℕ) (result : Result β)
  | answerHeld (j : ℕ) (b : β)
  | loseRequest (j : ℕ)
  | loseResponse (j : ℕ)

namespace State

def modify (s : State α β) (i : ℕ) (f : Call α β → Call α β) : State α β :=
  { s with calls := s.calls.modify i f }

def remove (s : State α β) (opaqueId : Int32) : State α β :=
  { s with responseTable := Function.update s.responseTable opaqueId none }

/-- `ctx.writeAndFlush(response)`, with the number of the request. -/
def respond (s : State α β) (m : Request α) (a : Answer β) : State α β :=
  { s with responses := s.responses ++ [(m.opaqueId, a)]
           answers := s.answers ++ [(m.opaqueId, m.content, a)] }

/-- An answer of the remoting layer is for requests that expect one. -/
def respondRPC (s : State α β) (m : Request α) (a : Answer β) : State α β :=
  if m.isOnewayRPC then s else s.respond m a

def advance (s : State α β) (t : ℕ) : Task β → State α β
  | .respond i o a .set =>
    { s.modify i (Call.setResponseCommand (some a)) with
      tasks := s.tasks.set t (.respond i o a .remove) }
  | .respond i o a .remove => { s.remove o with tasks := s.tasks.set t (.respond i o a .complete) }
  | .respond i _ a .complete =>
    { s.modify i fun c =>
        if c.kind = .async true then c.executeInvokeCallback
        else c.setResponseCommand (some a) with tasks := s.tasks.eraseIdx t }
  | .expire i => { s.modify i Call.executeInvokeCallback with tasks := s.tasks.eraseIdx t }

end State

/-- `supported` says for which requests there is a processor. -/
def step (supported : α → Bool) (s : State α β) : Action α β → Option (State α β)
  | .invoke kind request =>
    some { s with created := s.created + 1, calls := s.calls ++ [⟨s.created, kind, request,
      .created, .no, true, none, false, none, []⟩] }
  | .create => some { s with created := s.created + 1 }
  | .put i => s.calls[i]?.bind fun c =>
    if c.stage = .created ∧ c.kind ≠ .oneway then
      some { s.modify i fun c => { c with stage := .put } with
        responseTable := Function.update s.responseTable c.opaqueId (some i) }
    else none
  | .write i => s.calls[i]?.bind fun c =>
    if c.written = .no ∧ (c.stage = .put ∨ c.kind = .oneway) then
      some (s.modify i fun c => { c with
        stage := if c.kind = .sync then .waiting else .over
        written := .pending })
    else none
  | .flush i => s.calls[i]?.bind fun c =>
    if c.written = .pending then
      some { s.modify i fun c => { c with written := .ok } with
        requests := s.requests ++ [⟨c.opaqueId, c.request, c.kind = .oneway⟩] }
    else none
  | .writeFails i => s.calls[i]?.bind fun c =>
    if c.written = .pending then
      some ((if c.kind = .oneway then s else s.remove c.opaqueId).modify i Call.writeFailed)
    else none
  | .wake i => s.calls[i]?.bind fun c =>
    if c.stage = .waiting then some (s.modify i Call.wake) else none
  | .finish i => s.calls[i]?.bind fun c =>
    if c.stage = .returning then
      some ((s.remove c.opaqueId).modify i fun c => { c with stage := .over })
    else none
  | .receive j => s.responses[j]?.map fun r =>
    let s := { s with responses := s.responses.eraseIdx j }
    match s.responseTable r.1 with
    | some i => { s with tasks := s.tasks ++ [.respond i r.1 r.2 .set] }
    | none => s
  | .scan o => (s.responseTable o).map fun i =>
    { s.remove o with tasks := s.tasks ++ [.expire i] }
  | .advance t => s.tasks[t]?.map (s.advance t)
  | .accept j rejected => s.requests[j]?.map fun m =>
    let s := { s with requests := s.requests.eraseIdx j }
    if supported m.content then
      if rejected then s.respondRPC m .systemBusy
      else { s with submitted := s.submitted ++ [m] }
    else s.respond m .requestCodeNotSupported
  | .serve j result => s.submitted[j]?.map fun m =>
    let s := { s with submitted := s.submitted.eraseIdx j }
    match result with
    | .returns b => s.respondRPC m (.response b)
    | .returnsNull => { s with held := s.held ++ [m] }
    | .throws remark => s.respondRPC m (.systemError remark)
  | .answerHeld j b => s.held[j]?.map fun m =>
    { s with held := s.held.eraseIdx j }.respond m (.response b)
  | .loseRequest j => if j < s.requests.length then
      some { s with requests := s.requests.eraseIdx j } else none
  | .loseResponse j => if j < s.responses.length then
      some { s with responses := s.responses.eraseIdx j } else none

/-- What a call has is an answer to its request. -/
structure Call.Good (answers : List (Int32 × α × Answer β)) (c : Call α β) : Prop where
  response : ∀ a, c.responseCommand = some a → (c.opaqueId, c.request, a) ∈ answers
  returned : ∀ a, c.returned = some (.ok a) → (c.opaqueId, c.request, a) ∈ answers
  found : ∀ a, some a ∈ c.completed → (c.opaqueId, c.request, a) ∈ answers
  once : c.completed.length = c.executeCallbackOnlyOnce.toNat
  waits : c.stage = .waiting ∨ c.stage = .returning → c.kind = .sync
  oneway : c.kind = .oneway → c.returned = none ∧ c.completed = []

/-- A request with that number and content was written by a call. -/
def State.Known (s : State α β) (opaqueId : Int32) (request : α) : Prop :=
  ∃ c ∈ s.calls, c.opaqueId = opaqueId ∧ c.request = request ∧ c.written = .ok

/-- The future of the task is that of the call with the number of the response. -/
def State.Serves (s : State α β) : Task β → Prop
  | .respond i o a _ => (∃ c, s.calls[i]? = some c ∧ c.opaqueId = o) ∧
    ∃ request, (o, request, a) ∈ s.answers
  | .expire _ => True

/-- The requests that the server has not finished with. -/
def State.open_ (s : State α β) : List (Request α) := s.requests ++ s.submitted ++ s.held

structure Inv (s : State α β) : Prop where
  ids : (s.calls.map Call.id).Pairwise (· < ·)
  bound : ∀ c ∈ s.calls, c.id < s.created
  good : ∀ c ∈ s.calls, c.Good s.answers
  table : ∀ o i, s.responseTable o = some i →
    ∃ c, s.calls[i]? = some c ∧ c.opaqueId = o ∧ c.kind ≠ .oneway
  forgotten : ∀ c ∈ s.calls, c.kind = .sync → c.stage = .over →
    s.responseTable c.opaqueId = none
  tasks : ∀ k ∈ s.tasks, s.Serves k
  known : ∀ m ∈ s.open_, s.Known m.opaqueId m.content
  answered : ∀ x ∈ s.answers, s.Known x.1 x.2.1
  responses : ∀ x ∈ s.responses, ∃ request, (x.1, request, x.2) ∈ s.answers
  /-- a request is with the server, or answered -/
  tokens : (s.open_.map Request.opaqueId ++ s.answers.map Prod.fst).Nodup

/-- No two calls have the same number, before the counter comes round. -/
lemma Inv.own {s : State α β} (h : Inv s) (hwrap : s.created ≤ 2 ^ 32) :
    (s.calls.map Call.opaqueId).Nodup := by
  have heq : s.calls.map Call.opaqueId = (s.calls.map Call.id).map Int32.ofNat := by
    rw [List.map_map]
    rfl
  rw [heq]
  refine List.Nodup.map_on ?_ (h.ids.imp fun hlt => ne_of_lt hlt)
  intro n hn n' hn' hof
  obtain ⟨c, hc, rfl⟩ := List.mem_map.mp hn
  obtain ⟨c', hc', rfl⟩ := List.mem_map.mp hn'
  have hlt := h.bound c hc
  have hlt' := h.bound c' hc'
  have hnat := congrArg (fun n : Int32 => n.toBitVec.toNat) hof
  simp only [Int32.ofNat, Int32.toBitVec] at hnat
  simpa [Nat.mod_eq_of_lt (show c.id < 4294967296 by omega),
    Nat.mod_eq_of_lt (show c'.id < 4294967296 by omega)] using hnat

lemma Inv.eq_of_opaqueId {s : State α β} (h : Inv s) (hwrap : s.created ≤ 2 ^ 32)
    {c c' : Call α β} (hc : c ∈ s.calls) (hc' : c' ∈ s.calls) (heq : c.opaqueId = c'.opaqueId) :
    c = c' := List.inj_on_of_nodup_map (h.own hwrap) hc hc' heq

lemma inv_new : Inv (newState : State α β) := by
  constructor <;> simp [newState, State.open_]

/-! ### What a step changes -/

/-- A call goes on. -/
structure Call.Goes (c c' : Call α β) : Prop where
  id : c'.id = c.id
  kind : c'.kind = c.kind
  request : c'.request = c.request
  written : c.written = .ok → c'.written = .ok

lemma Call.Goes.opaqueId {c c' : Call α β} (h : c.Goes c') : c'.opaqueId = c.opaqueId :=
  congrArg Int32.ofNat h.id

section Steps

variable {s s' : State α β} {i : ℕ} {c : Call α β} {f : Call α β → Call α β}

lemma getElem?_modify_calls {j : ℕ} (hj : s.calls[j]? = some c) :
    ∃ c', (s.modify i f).calls[j]? = some c' ∧ (c' = c ∨ j = i ∧ c' = f c) := by
  rw [State.modify, List.getElem?_modify, hj]
  by_cases hij : i = j
  · exact ⟨f c, by simp [hij], .inr ⟨hij.symm, rfl⟩⟩
  · exact ⟨c, by simp [hij], .inl rfl⟩

lemma known_modify (hf : ∀ c, s.calls[i]? = some c → c.Goes (f c)) {o : Int32} {request : α}
    (h : s.Known o request) : (s.modify i f).Known o request := by
  obtain ⟨c, hc, ho, hreq, hwritten⟩ := h
  obtain ⟨j, hj⟩ := List.mem_iff_getElem?.mp hc
  obtain ⟨c', hc', rfl | ⟨rfl, rfl⟩⟩ := getElem?_modify_calls (i := i) (f := f) hj
  · exact ⟨c', List.mem_of_getElem? hc', ho, hreq, hwritten⟩
  · have hgoes := hf c hj
    exact ⟨f c, List.mem_of_getElem? hc', hgoes.opaqueId.trans ho, hgoes.request.trans hreq,
      hgoes.written hwritten⟩

/-- One call changes. -/
lemma Inv.modify (h : Inv s) (hf : ∀ c, s.calls[i]? = some c → c.Goes (f c))
    (hgood : ∀ c, s.calls[i]? = some c → (f c).Good s.answers)
    (hover : ∀ c, s.calls[i]? = some c → (f c).kind = .sync → (f c).stage = .over →
      s.responseTable c.opaqueId = none) : Inv (s.modify i f) where
  ids := by
    have hmap : (s.calls.modify i f).map Call.id = s.calls.map Call.id :=
      map_modify_of_eq fun c hc => (hf c hc).id
    exact hmap ▸ h.ids
  bound c hc := by
    rcases mem_modify_cases hc with hc | ⟨c', hc', rfl⟩
    · exact h.bound c hc
    · rw [(hf c' hc').id]
      exact h.bound c' (List.mem_of_getElem? hc')
  good c hc := by
    rcases mem_modify_cases hc with hc | ⟨c', hc', rfl⟩
    · exact h.good c hc
    · exact hgood c' hc'
  table o j ho := by
    obtain ⟨c, hc, hopaque, hkind⟩ := h.table o j ho
    obtain ⟨c', hc', rfl | ⟨rfl, rfl⟩⟩ := getElem?_modify_calls (i := i) (f := f) hc
    · exact ⟨c', hc', hopaque, hkind⟩
    · exact ⟨f c, hc', (hf c hc).opaqueId.trans hopaque, (hf c hc).kind ▸ hkind⟩
  forgotten c hc hkind hstage := by
    rcases mem_modify_cases hc with hc | ⟨c', hc', rfl⟩
    · exact h.forgotten c hc hkind hstage
    · rw [(hf c' hc').opaqueId]
      exact hover c' hc' hkind hstage
  tasks k hk := by
    have hserves := h.tasks k hk
    cases k with
    | expire j => trivial
    | respond j o a p =>
      obtain ⟨⟨c, hc, hopaque⟩, hanswer⟩ := hserves
      obtain ⟨c', hc', rfl | ⟨rfl, rfl⟩⟩ := getElem?_modify_calls (i := i) (f := f) hc
      · exact ⟨⟨c', hc', hopaque⟩, hanswer⟩
      · exact ⟨⟨f c, hc', (hf c hc).opaqueId.trans hopaque⟩, hanswer⟩
  known m hm := known_modify hf (h.known m hm)
  answered x hx := known_modify hf (h.answered x hx)
  responses := h.responses
  tokens := h.tokens

lemma remove_self (s : State α β) (o : Int32) : (s.remove o).responseTable o = none :=
  Function.update_self _ _ _

lemma remove_of_ne {o o' : Int32} (h : o' ≠ o) :
    (s.remove o).responseTable o' = s.responseTable o' :=
  Function.update_of_ne h _ _

lemma Inv.remove (h : Inv s) (o : Int32) : Inv (s.remove o) where
  ids := h.ids
  bound := h.bound
  good := h.good
  table o' j ho := by
    by_cases heq : o' = o
    · rw [heq, remove_self] at ho
      cases ho
    · rw [remove_of_ne heq] at ho
      exact h.table o' j ho
  forgotten c hc hkind hstage := by
    by_cases heq : c.opaqueId = o
    · rw [heq, remove_self]
    · rw [remove_of_ne heq]
      exact h.forgotten c hc hkind hstage
  tasks := h.tasks
  known := h.known
  answered := h.answered
  responses := h.responses
  tokens := h.tokens

lemma Inv.setTasks (h : Inv s) {tasks : List (Task β)} (htasks : ∀ k ∈ tasks, s.Serves k) :
    Inv { s with tasks := tasks } :=
  ⟨h.ids, h.bound, h.good, h.table, h.forgotten, htasks, h.known, h.answered, h.responses, h.tokens⟩

lemma Inv.setResponses (h : Inv s) {responses : List (Int32 × Answer β)}
    (hresponses : ∀ x ∈ responses, ∃ request, (x.1, request, x.2) ∈ s.answers) :
    Inv { s with responses := responses } :=
  ⟨h.ids, h.bound, h.good, h.table, h.forgotten, h.tasks, h.known, h.answered, hresponses, h.tokens⟩

/-- Requests move on, or are lost. -/
lemma Inv.setOpen (h : Inv s) {requests submitted held : List (Request α)}
    (hsub : ∃ rest, s.open_.Perm (requests ++ submitted ++ held ++ rest)) :
    Inv { s with requests := requests, submitted := submitted, held := held } := by
  obtain ⟨rest, hperm⟩ := hsub
  refine ⟨h.ids, h.bound, h.good, h.table, h.forgotten, h.tasks, fun m hm => ?_, h.answered,
    h.responses, ?_⟩
  · exact h.known m (hperm.mem_iff.mpr (List.mem_append_left _ hm))
  · have hnodup := ((hperm.map Request.opaqueId).append_right _).nodup_iff.mp h.tokens
    rw [List.map_append, List.append_assoc] at hnodup
    obtain ⟨hleft, hright, hdisj⟩ := List.nodup_append.mp hnodup
    refine List.nodup_append.mpr ⟨hleft, (List.nodup_append.mp hright).2.1, fun a ha b hb => ?_⟩
    exact hdisj a ha b (List.mem_append_right _ hb)

/-- The server answers a request that it has finished with. -/
lemma Inv.respond (h : Inv s) {requests submitted held : List (Request α)} {m : Request α}
    (hperm : s.open_.Perm (requests ++ submitted ++ held ++ [m])) (a : Answer β) :
    Inv (State.respond { s with requests := requests, submitted := submitted, held := held }
      m a) := by
  have hm : m ∈ s.open_ := hperm.mem_iff.mpr (by simp)
  have hknown := h.known m hm
  have hmono : ∀ x ∈ s.answers, x ∈ s.answers ++ [(m.opaqueId, m.content, a)] :=
    fun x hx => List.mem_append_left _ hx
  refine ⟨h.ids, h.bound, fun c hc => ?_, h.table, h.forgotten, fun k hk => ?_, fun m' hm' => ?_,
    fun x hx => ?_, fun x hx => ?_, ?_⟩
  · have hgood := h.good c hc
    exact ⟨fun a ha => hmono _ (hgood.response a ha), fun a ha => hmono _ (hgood.returned a ha),
      fun a ha => hmono _ (hgood.found a ha), hgood.once, hgood.waits, hgood.oneway⟩
  · have hserves := h.tasks k hk
    cases k with
    | expire j => trivial
    | respond j o a p => exact ⟨hserves.1, hserves.2.imp fun _ hreq => hmono _ hreq⟩
  · exact h.known m' (hperm.mem_iff.mpr (List.mem_append_left _ hm'))
  · rcases List.mem_append.mp hx with hx | hx
    · exact h.answered x hx
    · obtain rfl := List.mem_singleton.mp hx
      exact hknown
  · rcases List.mem_append.mp hx with hx | hx
    · exact (h.responses x hx).imp fun _ hreq => hmono _ hreq
    · obtain rfl := List.mem_singleton.mp hx
      exact ⟨m.content, List.mem_append_right _ (List.mem_singleton.mpr rfl)⟩
  · have hnodup := ((hperm.map Request.opaqueId).append_right _).nodup_iff.mp h.tokens
    refine (List.Perm.nodup_iff ?_).mp hnodup
    simp only [State.open_, State.respond, List.map_append, List.map_cons, List.map_nil,
      List.append_assoc]
    refine (List.perm_append_left_iff _).mpr ((List.perm_append_left_iff _).mpr
      ((List.perm_append_left_iff _).mpr List.perm_append_comm))

lemma Inv.invoke (h : Inv s) (kind : Kind) (request : α) :
    Inv { s with created := s.created + 1, calls := s.calls ++ [⟨s.created, kind, request,
      .created, .no, true, none, false, none, []⟩] } := by
  have hmem : ∀ c : Call α β, c ∈ s.calls ++ [⟨s.created, kind, request, .created, .no, true, none,
      false, none, []⟩] → c ∈ s.calls ∨
        c = ⟨s.created, kind, request, .created, .no, true, none, false, none, []⟩ := by
    intro c hc
    simpa using hc
  refine ⟨?_, fun c hc => ?_, fun c hc => ?_, fun o i ho => ?_, fun c hc hkind hstage => ?_,
    fun k hk => ?_, fun m hm => ?_, fun x hx => ?_, h.responses, h.tokens⟩
  · rw [List.map_append, List.pairwise_append]
    refine ⟨h.ids, List.pairwise_singleton _ _, fun n hn n' hn' => ?_⟩
    obtain ⟨c, hc, rfl⟩ := List.mem_map.mp hn
    obtain rfl := List.mem_singleton.mp hn'
    exact h.bound c hc
  · rcases hmem c hc with hc | rfl
    · exact (h.bound c hc).trans (Nat.lt_succ_self _)
    · exact Nat.lt_succ_self _
  · rcases hmem c hc with hc | rfl
    · exact h.good c hc
    · constructor <;> simp
  · obtain ⟨c, hc, hrest⟩ := h.table o i ho
    exact ⟨c, getElem?_append_of_getElem? hc, hrest⟩
  · rcases hmem c hc with hc | rfl
    · exact h.forgotten c hc hkind hstage
    · cases hstage
  · have hserves := h.tasks k hk
    cases k with
    | expire j => trivial
    | respond j o a p =>
      exact ⟨hserves.1.imp fun c hc => ⟨getElem?_append_of_getElem? hc.1, hc.2⟩, hserves.2⟩
  · exact (h.known m hm).imp fun c hc => ⟨List.mem_append_left _ hc.1, hc.2⟩
  · exact (h.answered x hx).imp fun c hc => ⟨List.mem_append_left _ hc.1, hc.2⟩

/-- The future is put into the table. -/
lemma Inv.insert (h : Inv s) (hwrap : s.created ≤ 2 ^ 32) (hi : s.calls[i]? = some c)
    (hkind : c.kind ≠ .oneway) (hstage : c.stage ≠ .over) :
    Inv { s with responseTable := Function.update s.responseTable c.opaqueId (some i) } := by
  refine ⟨h.ids, h.bound, h.good, fun o j ho => ?_, fun c' hc' hkind' hstage' => ?_, h.tasks,
    h.known, h.answered, h.responses, h.tokens⟩
  · dsimp only at ho
    by_cases heq : o = c.opaqueId
    · rw [heq, Function.update_self, Option.some.injEq] at ho
      exact ⟨c, ho ▸ hi, heq.symm, hkind⟩
    · rw [Function.update_of_ne heq] at ho
      exact h.table o j ho
  · by_cases heq : c'.opaqueId = c.opaqueId
    · rw [h.eq_of_opaqueId hwrap hc' (List.mem_of_getElem? hi) heq] at hstage'
      exact absurd hstage' hstage
    · dsimp only
      rw [Function.update_of_ne heq]
      exact h.forgotten c' hc' hkind' hstage'

/-- The request goes out to the server. -/
lemma Inv.send (h : Inv s) {m : Request α} (hknown : s.Known m.opaqueId m.content)
    (hfresh : m.opaqueId ∉ s.open_.map Request.opaqueId ++ s.answers.map Prod.fst) :
    Inv { s with requests := s.requests ++ [m] } := by
  have hperm : (s.requests ++ [m] ++ s.submitted ++ s.held).Perm (m :: s.open_) :=
    ((List.perm_append_singleton _ _).append_right _).append_right _
  refine ⟨h.ids, h.bound, h.good, h.table, h.forgotten, h.tasks, fun m' hm' => ?_, h.answered,
    h.responses, ?_⟩
  · rcases List.mem_cons.mp (hperm.mem_iff.mp hm') with rfl | hm'
    · exact hknown
    · exact h.known m' hm'
  · refine ((hperm.map Request.opaqueId).append_right _).nodup_iff.mpr ?_
    exact List.nodup_cons.mpr ⟨hfresh, h.tokens⟩

/-- No request of a call whose write is pending is under way. -/
lemma Inv.fresh (h : Inv s) (hwrap : s.created ≤ 2 ^ 32) (hi : s.calls[i]? = some c)
    (hpending : c.written = .pending) :
    c.opaqueId ∉ s.open_.map Request.opaqueId ++ s.answers.map Prod.fst := by
  have hnot : ∀ request, ¬ s.Known c.opaqueId request := by
    rintro request ⟨c', hc', ho, -, hok⟩
    rw [h.eq_of_opaqueId hwrap hc' (List.mem_of_getElem? hi) ho, hpending] at hok
    cases hok
  intro hmem
  rcases List.mem_append.mp hmem with hmem | hmem
  · obtain ⟨m, hm, heq⟩ := List.mem_map.mp hmem
    exact hnot _ (heq ▸ h.known m hm)
  · obtain ⟨x, hx, heq⟩ := List.mem_map.mp hmem
    exact hnot _ (heq ▸ h.answered x hx)

end Steps

/-! ### Steps of a call -/

section Calls

variable {s : State α β} {i : ℕ} {c : Call α β} {f : Call α β → Call α β}
  {answers : List (Int32 × α × Answer β)}

lemma Inv.modify_at (h : Inv s) (hi : s.calls[i]? = some c) (hf : c.Goes (f c))
    (hgood : (f c).Good s.answers)
    (hover : (f c).kind = .sync → (f c).stage = .over → s.responseTable c.opaqueId = none) :
    Inv (s.modify i f) := by
  have heq : ∀ c', s.calls[i]? = some c' → c' = c :=
    fun c' hc' => Option.some.inj (hc'.symm.trans hi)
  refine h.modify (fun c' hc' => ?_) (fun c' hc' => ?_) (fun c' hc' => ?_)
  · rw [heq c' hc']
    exact hf
  · rw [heq c' hc']
    exact hgood
  · rw [heq c' hc']
    exact hover

lemma stage_execute : c.executeInvokeCallback.stage = c.stage := by
  unfold Call.executeInvokeCallback
  split <;> rfl

lemma goes_execute : c.Goes c.executeInvokeCallback := by
  unfold Call.executeInvokeCallback
  split <;> exact ⟨rfl, rfl, rfl, id⟩

/-- The callback is executed with what the future holds, and never again. -/
lemma Call.Good.execute (h : c.Good answers) : c.executeInvokeCallback.Good answers := by
  unfold Call.executeInvokeCallback
  split
  · next hif =>
    obtain ⟨hkind, honce⟩ := hif
    rw [Bool.not_eq_true] at honce
    have hempty : c.completed = [] := by
      have hlength := h.once
      rw [honce] at hlength
      exact List.eq_nil_of_length_eq_zero hlength
    refine ⟨h.response, h.returned, fun a ha => ?_, by simp [hempty], h.waits, fun hone => ?_⟩
    · rw [hempty, List.nil_append, List.mem_singleton] at ha
      exact h.response a ha.symm
    · rw [hkind] at hone
      cases hone
  · exact h

lemma Call.Good.setResponseCommand (h : c.Good answers) {r : Option (Answer β)}
    (hr : ∀ a, r = some a → (c.opaqueId, c.request, a) ∈ answers) :
    (c.setResponseCommand r).Good answers :=
  ⟨hr, h.returned, h.found, h.once, h.waits, h.oneway⟩

lemma goes_writeFailed (hwritten : c.written = .pending) : c.Goes c.writeFailed := by
  have hne : c.written = .ok → Written.failed = .ok := by
    rw [hwritten]
    intro hok
    cases hok
  unfold Call.writeFailed
  dsimp only
  split
  · exact ⟨rfl, rfl, rfl, hne⟩
  · have hgoes : Call.Goes c
        (({ c with written := .failed, sendRequestOK := false } : Call α β).setResponseCommand
          none) := ⟨rfl, rfl, rfl, hne⟩
    exact ⟨goes_execute.id.trans hgoes.id, goes_execute.kind.trans hgoes.kind,
      goes_execute.request.trans hgoes.request, fun hok => goes_execute.written (hgoes.written hok)⟩
  · exact ⟨rfl, rfl, rfl, hne⟩

lemma stage_writeFailed : c.writeFailed.stage = c.stage := by
  unfold Call.writeFailed
  dsimp only
  split
  · rfl
  · exact stage_execute
  · rfl

lemma Call.Good.writeFailed (h : c.Good answers) : c.writeFailed.Good answers := by
  have hfailed : Call.Good answers { c with written := .failed, sendRequestOK := false } :=
    ⟨h.response, h.returned, h.found, h.once, h.waits, h.oneway⟩
  have hnone := hfailed.setResponseCommand (r := none) fun a ha => nomatch ha
  unfold Call.writeFailed
  dsimp only
  split
  · exact hnone
  · exact hnone.execute
  · exact hfailed

lemma Call.Good.wake (h : c.Good answers) (hstage : c.stage = .waiting) : c.wake.Good answers := by
  refine ⟨h.response, fun a ha => ?_, h.found, h.once, fun _ => h.waits (.inl hstage),
    fun hone => ?_⟩
  · unfold Call.wake at ha
    dsimp only at ha
    split at ha
    · next a' hres =>
      cases ha
      exact h.response a hres
    · cases ha
  · have hsync := h.waits (.inl hstage)
    rw [show c.kind = .oneway from hone] at hsync
    cases hsync

/-- A response that found a future answers the request of its call. -/
lemma Inv.answer_mem (h : Inv s) (hwrap : s.created ≤ 2 ^ 32) {o : Int32} {a : Answer β}
    {p : Progress} (hserves : s.Serves (.respond i o a p)) (hi : s.calls[i]? = some c) :
    (c.opaqueId, c.request, a) ∈ s.answers := by
  obtain ⟨⟨c', hc', hopaque⟩, request, hmem⟩ := hserves
  obtain rfl := Option.some.inj (hi.symm.trans hc')
  obtain ⟨c', hc', ho, hreq, -⟩ := h.answered _ hmem
  have heq := h.eq_of_opaqueId hwrap hc' (List.mem_of_getElem? hi) (ho.trans hopaque.symm)
  subst heq
  rw [ho, hreq]
  exact hmem

end Calls

/-! ### Steps of the server -/

section Server

variable {s : State α β} {m : Request α} {j : ℕ}

lemma perm_accept (hj : s.requests[j]? = some m) :
    s.open_.Perm (s.requests.eraseIdx j ++ s.submitted ++ s.held ++ [m]) :=
  (((perm_cons_eraseIdx hj).append_right _).append_right _).trans
    (List.perm_append_singleton _ _).symm

lemma perm_serve (hj : s.submitted[j]? = some m) :
    s.open_.Perm (s.requests ++ s.submitted.eraseIdx j ++ s.held ++ [m]) :=
  ((((perm_cons_eraseIdx hj).append_left _).trans List.perm_middle).append_right _).trans
    (List.perm_append_singleton _ _).symm

lemma perm_answerHeld (hj : s.held[j]? = some m) :
    s.open_.Perm (s.requests ++ s.submitted ++ s.held.eraseIdx j ++ [m]) :=
  (((perm_cons_eraseIdx hj).append_left _).trans List.perm_middle).trans
    (List.perm_append_singleton _ _).symm

lemma Inv.respondRPC (h : Inv s) {requests submitted held : List (Request α)}
    (hperm : s.open_.Perm (requests ++ submitted ++ held ++ [m])) (a : Answer β) :
    Inv (State.respondRPC { s with requests := requests, submitted := submitted, held := held }
      m a) := by
  unfold State.respondRPC
  split
  · exact h.setOpen ⟨[m], hperm⟩
  · exact h.respond hperm a

end Server

/-! ### Runs -/

section Runs

variable {supported : α → Bool} {s s' : State α β}

lemma Inv.advance (h : Inv s) (hwrap : s.created ≤ 2 ^ 32) {t : ℕ} {k : Task β}
    (ht : s.tasks[t]? = some k) : Inv (s.advance t k) := by
  have hserves := h.tasks k (List.mem_of_getElem? ht)
  have herase : ∀ k' ∈ s.tasks.eraseIdx t, k' ∈ s.tasks := fun k' hk' =>
    List.mem_of_mem_eraseIdx hk'
  cases k with
  | respond i o a p =>
    obtain ⟨c, hi, -⟩ := hserves.1
    have hanswer := h.answer_mem hwrap hserves hi
    have hgood := h.good c (List.mem_of_getElem? hi)
    have hforgotten := h.forgotten c (List.mem_of_getElem? hi)
    have hset : Inv (s.modify i (Call.setResponseCommand (some a))) := by
      refine h.modify_at hi ⟨rfl, rfl, rfl, id⟩ (hgood.setResponseCommand ?_) hforgotten
      intro a' ha'
      cases ha'
      exact hanswer
    cases p with
    | set =>
      refine hset.setTasks fun k hk => ?_
      rcases List.mem_or_eq_of_mem_set hk with hk | rfl
      · exact hset.tasks k hk
      · exact hset.tasks (.respond i o a .set) (List.mem_of_getElem? ht)
    | remove =>
      refine (h.remove o).setTasks fun k hk => ?_
      rcases List.mem_or_eq_of_mem_set hk with hk | rfl
      · exact h.tasks k hk
      · exact hserves
    | complete =>
      have hcomplete : Inv (s.modify i fun c => if c.kind = .async true then
          c.executeInvokeCallback else c.setResponseCommand (some a)) := by
        by_cases hkind : c.kind = .async true
        · refine h.modify_at hi ?_ ?_ ?_ <;> rw [if_pos hkind]
          · exact goes_execute
          · exact hgood.execute
          · rw [goes_execute.kind, stage_execute]
            exact hforgotten
        · refine h.modify_at hi ?_ ?_ ?_ <;> rw [if_neg hkind]
          · exact ⟨rfl, rfl, rfl, id⟩
          · refine hgood.setResponseCommand fun a' ha' => ?_
            cases ha'
            exact hanswer
          · exact hforgotten
      exact hcomplete.setTasks fun k hk => hcomplete.tasks k (herase k hk)
  | expire i =>
    have hexpire : Inv (s.modify i Call.executeInvokeCallback) := by
      refine h.modify (fun c _ => goes_execute) (fun c hc => ?_) (fun c hc => ?_)
      · exact (h.good c (List.mem_of_getElem? hc)).execute
      · rw [goes_execute.kind, stage_execute]
        exact h.forgotten c (List.mem_of_getElem? hc)
    exact hexpire.setTasks fun k hk => hexpire.tasks k (herase k hk)

/-- **One step.** -/
lemma inv_step {a : Action α β} (h : Inv s) (hwrap : s.created ≤ 2 ^ 32)
    (hs : step supported s a = some s') : Inv s' := by
  cases a with
  | invoke kind request =>
    obtain rfl := Option.some.inj hs
    exact h.invoke kind request
  | create =>
    obtain rfl := Option.some.inj hs
    exact ⟨h.ids, fun c hc => (h.bound c hc).trans (Nat.lt_succ_self _), h.good, h.table,
      h.forgotten, h.tasks, h.known, h.answered, h.responses, h.tokens⟩
  | put i =>
    obtain ⟨c, hi, hs⟩ := Option.bind_eq_some_iff.mp hs
    obtain ⟨⟨hcreated, hkind⟩, rfl⟩ := Option.ite_none_right_eq_some.mp hs |>.imp_right
      Option.some.inj
    have hgood := h.good c (List.mem_of_getElem? hi)
    have hput : Inv (s.modify i fun c => { c with stage := .put }) := by
      refine h.modify_at hi ⟨rfl, rfl, rfl, id⟩ ?_ fun _ hover => nomatch hover
      exact ⟨hgood.response, hgood.returned, hgood.found, hgood.once, by simp, hgood.oneway⟩
    have hi' : (s.modify i fun c => { c with stage := .put }).calls[i]? =
        some { c with stage := .put } := by
      rw [State.modify, List.getElem?_modify_eq, hi]
      rfl
    exact hput.insert (c := { c with stage := .put }) hwrap hi' hkind nofun
  | write i =>
    obtain ⟨c, hi, hs⟩ := Option.bind_eq_some_iff.mp hs
    obtain ⟨⟨hno, -⟩, rfl⟩ := Option.ite_none_right_eq_some.mp hs |>.imp_right Option.some.inj
    have hgood := h.good c (List.mem_of_getElem? hi)
    refine h.modify_at hi ⟨rfl, rfl, rfl, fun hok => ?_⟩ ?_ fun hsync hover => ?_
    · rw [hno] at hok
      cases hok
    · refine ⟨hgood.response, hgood.returned, hgood.found, hgood.once, fun hwaits => ?_,
        hgood.oneway⟩
      by_contra hsync
      simp only [if_neg (show ¬ c.kind = .sync from hsync)] at hwaits
      rcases hwaits with hwaits | hwaits <;> cases hwaits
    · simp only [if_pos (show c.kind = .sync from hsync)] at hover
      cases hover
  | flush i =>
    obtain ⟨c, hi, hs⟩ := Option.bind_eq_some_iff.mp hs
    obtain ⟨hpending, rfl⟩ := Option.ite_none_right_eq_some.mp hs |>.imp_right Option.some.inj
    have hgood := h.good c (List.mem_of_getElem? hi)
    have hflush : Inv (s.modify i fun c => { c with written := .ok }) :=
      h.modify_at hi ⟨rfl, rfl, rfl, fun _ => rfl⟩
        ⟨hgood.response, hgood.returned, hgood.found, hgood.once, hgood.waits, hgood.oneway⟩
        (h.forgotten c (List.mem_of_getElem? hi))
    have hi' : (s.modify i fun c => { c with written := .ok }).calls[i]? =
        some { c with written := .ok } := by
      rw [State.modify, List.getElem?_modify_eq, hi]
      rfl
    refine hflush.send ⟨_, List.mem_of_getElem? hi', rfl, rfl, rfl⟩ ?_
    exact h.fresh hwrap hi hpending
  | writeFails i =>
    obtain ⟨c, hi, hs⟩ := Option.bind_eq_some_iff.mp hs
    obtain ⟨hpending, rfl⟩ := Option.ite_none_right_eq_some.mp hs |>.imp_right Option.some.inj
    have hremoved : Inv (if c.kind = .oneway then s else s.remove c.opaqueId) ∧
        (if c.kind = .oneway then s else s.remove c.opaqueId).calls = s.calls ∧
        (if c.kind = .oneway then s else s.remove c.opaqueId).answers = s.answers := by
      split
      · exact ⟨h, rfl, rfl⟩
      · exact ⟨h.remove _, rfl, rfl⟩
    obtain ⟨hinv, hcalls, hanswers⟩ := hremoved
    refine hinv.modify_at (hcalls ▸ hi) (goes_writeFailed hpending) ?_ fun hsync hover => ?_
    · exact hanswers ▸ (h.good c (List.mem_of_getElem? hi)).writeFailed
    · rw [stage_writeFailed] at hover
      rw [(goes_writeFailed hpending).kind] at hsync
      exact hinv.forgotten c (hcalls ▸ List.mem_of_getElem? hi) hsync hover
  | wake i =>
    obtain ⟨c, hi, hs⟩ := Option.bind_eq_some_iff.mp hs
    obtain ⟨hwaiting, rfl⟩ := Option.ite_none_right_eq_some.mp hs |>.imp_right Option.some.inj
    exact h.modify_at hi ⟨rfl, rfl, rfl, id⟩ ((h.good c (List.mem_of_getElem? hi)).wake hwaiting)
      fun _ hover => nomatch hover
  | finish i =>
    obtain ⟨c, hi, hs⟩ := Option.bind_eq_some_iff.mp hs
    obtain ⟨hreturning, rfl⟩ := Option.ite_none_right_eq_some.mp hs |>.imp_right Option.some.inj
    have hgood := h.good c (List.mem_of_getElem? hi)
    exact (h.remove c.opaqueId).modify_at hi ⟨rfl, rfl, rfl, id⟩
      ⟨hgood.response, hgood.returned, hgood.found, hgood.once, by simp, hgood.oneway⟩
      fun _ _ => remove_self s c.opaqueId
  | receive j =>
    obtain ⟨r, hj, rfl⟩ := Option.map_eq_some_iff.mp hs
    have hr := h.responses r (List.mem_of_getElem? hj)
    have herased : Inv { s with responses := s.responses.eraseIdx j } :=
      h.setResponses fun x hx => h.responses x (List.mem_of_mem_eraseIdx hx)
    dsimp only
    split
    · next i htable =>
      obtain ⟨c, hi, hopaque, -⟩ := h.table r.1 i htable
      refine herased.setTasks fun k hk => ?_
      rcases List.mem_append.mp hk with hk | hk
      · exact herased.tasks k hk
      · obtain rfl := List.mem_singleton.mp hk
        exact ⟨⟨c, hi, hopaque⟩, hr⟩
    · exact herased
  | scan o =>
    obtain ⟨i, -, rfl⟩ := Option.map_eq_some_iff.mp hs
    refine (h.remove o).setTasks fun k hk => ?_
    rcases List.mem_append.mp hk with hk | hk
    · exact h.tasks k hk
    · obtain rfl := List.mem_singleton.mp hk
      trivial
  | advance t =>
    obtain ⟨k, ht, rfl⟩ := Option.map_eq_some_iff.mp hs
    exact h.advance hwrap ht
  | accept j rejected =>
    obtain ⟨m, hj, rfl⟩ := Option.map_eq_some_iff.mp hs
    dsimp only
    split_ifs
    · exact h.respondRPC (perm_accept hj) _
    · refine h.setOpen ⟨[], (perm_accept hj).trans ?_⟩
      simp only [List.append_assoc, List.append_nil]
      exact (List.perm_append_comm.append_left _).append_left _
    · exact h.respond (perm_accept hj) _
  | serve j result =>
    obtain ⟨m, hj, rfl⟩ := Option.map_eq_some_iff.mp hs
    cases result with
    | returns b => exact h.respondRPC (perm_serve hj) _
    | returnsNull =>
      refine h.setOpen ⟨[], (perm_serve hj).trans ?_⟩
      simp only [List.append_assoc, List.append_nil]
      exact List.Perm.refl _
    | throws remark => exact h.respondRPC (perm_serve hj) _
  | answerHeld j b =>
    obtain ⟨m, hj, rfl⟩ := Option.map_eq_some_iff.mp hs
    exact h.respond (perm_answerHeld hj) _
  | loseRequest j =>
    obtain ⟨hj, rfl⟩ := Option.ite_none_right_eq_some.mp hs |>.imp_right Option.some.inj
    exact h.setOpen ⟨[s.requests[j]], perm_accept (List.getElem?_eq_getElem hj)⟩
  | loseResponse j =>
    obtain ⟨hj, rfl⟩ := Option.ite_none_right_eq_some.mp hs |>.imp_right Option.some.inj
    exact h.setResponses fun x hx => h.responses x (List.mem_of_mem_eraseIdx hx)

end Runs

/-! ### No callback is lost -/

/-- The callback of a call was executed, or the future is in the table, or a thread has it. -/
def State.Awaits (s : State α β) (i : ℕ) (c : Call α β) : Prop :=
  c.executeCallbackOnlyOnce ∨ s.responseTable c.opaqueId = some i ∨ ∃ k ∈ s.tasks, k.call = i

def Awaited (s : State α β) : Prop :=
  ∀ i c, s.calls[i]? = some c → c.kind = .async true → c.stage ≠ .created → s.Awaits i c

section Callbacks

variable {supported : α → Bool} {s s' : State α β} {i : ℕ} {c : Call α β}
  {f : Call α β → Call α β}

/-- Where a call is, and the number it has, say which call it is. -/
lemma Inv.index_eq (h : Inv s) (hwrap : s.created ≤ 2 ^ 32) {i j : ℕ} {c c' : Call α β}
    (hi : s.calls[i]? = some c) (hj : s.calls[j]? = some c')
    (heq : c.opaqueId = c'.opaqueId) : i = j := by
  have hmap : (s.calls.map Call.opaqueId)[i]? = (s.calls.map Call.opaqueId)[j]? := by
    rw [List.getElem?_map, List.getElem?_map, hi, hj, Option.map_some, Option.map_some, heq]
  have hlt : i < (s.calls.map Call.opaqueId).length := by
    rw [List.length_map]
    exact (List.getElem?_eq_some_iff.mp hi).1
  exact (List.getElem?_inj hlt (h.own hwrap)).mp hmap

lemma execute_once (hkind : c.kind = .async true) :
    c.executeInvokeCallback.executeCallbackOnlyOnce := by
  unfold Call.executeInvokeCallback
  split
  · rfl
  · next hif => simpa [hkind] using hif

lemma once_execute (honce : c.executeCallbackOnlyOnce) :
    c.executeInvokeCallback.executeCallbackOnlyOnce := by
  unfold Call.executeInvokeCallback
  split
  · rfl
  · exact honce

lemma Awaited.modify (h : Awaited s) (hi : s.calls[i]? = some c) (hf : c.Goes (f c))
    (honce : c.executeCallbackOnlyOnce → (f c).executeCallbackOnlyOnce)
    (hstage : c.kind = .async true → c.stage = .created → (f c).stage = .created) :
    Awaited (s.modify i f) := by
  intro j c' hj hkind hcreated
  dsimp only [State.modify] at hj
  by_cases hij : i = j
  · subst hij
    rw [List.getElem?_modify_eq, hi, Option.map_eq_map, Option.map_some, Option.some.injEq] at hj
    subst hj
    rw [hf.kind] at hkind
    rcases h i c hi hkind (mt (hstage hkind) hcreated) with hexec | htable | htask
    · exact .inl (honce hexec)
    · exact .inr (.inl (hf.opaqueId ▸ htable))
    · exact .inr (.inr htask)
  · rw [List.getElem?_modify_ne _ _ hij] at hj
    exact h j c' hj hkind hcreated

/-- The future of a call goes out of the table. -/
lemma Awaited.remove (h : Awaited s) {o : Int32}
    (ho : ∀ i c, s.calls[i]? = some c → c.kind = .async true → c.opaqueId = o →
      s.responseTable o = some i → c.executeCallbackOnlyOnce ∨ ∃ k ∈ s.tasks, k.call = i) :
    Awaited (s.remove o) := by
  intro i c hi hkind hcreated
  rcases h i c hi hkind hcreated with hexec | htable | htask
  · exact .inl hexec
  · by_cases heq : c.opaqueId = o
    · rcases ho i c hi hkind heq (heq ▸ htable) with hexec | htask
      · exact .inl hexec
      · exact .inr (.inr htask)
    · exact .inr (.inl ((remove_of_ne heq).trans htable))
  · exact .inr (.inr htask)

lemma Awaited.setTasks (h : Awaited s) {tasks : List (Task β)}
    (htasks : ∀ k ∈ s.tasks, (∃ k' ∈ tasks, k'.call = k.call) ∨
      ∀ c, s.calls[k.call]? = some c → c.kind = .async true → c.executeCallbackOnlyOnce) :
    Awaited { s with tasks := tasks } := by
  intro i c hi hkind hcreated
  rcases h i c hi hkind hcreated with hexec | htable | ⟨k, hk, rfl⟩
  · exact .inl hexec
  · exact .inr (.inl htable)
  · rcases htasks k hk with htask | hexec
    · exact .inr (.inr htask)
    · exact .inl (hexec c hi hkind)

lemma Awaited.invoke (h : Awaited s) (kind : Kind) (request : α) :
    Awaited { s with created := s.created + 1, calls := s.calls ++ [⟨s.created, kind, request,
      .created, .no, true, none, false, none, []⟩] } := by
  intro i c hi hkind hcreated
  rcases getElem?_concat_cases hi with ⟨-, rfl⟩ | hi
  · exact absurd rfl hcreated
  · exact h i c hi hkind hcreated

lemma Awaited.advance (h : Awaited s) (hinv : Inv s) (hwrap : s.created ≤ 2 ^ 32) {t : ℕ}
    {k : Task β} (ht : s.tasks[t]? = some k) : Awaited (s.advance t k) := by
  have hserves := hinv.tasks k (List.mem_of_getElem? ht)
  have hset : ∀ k' : Task β, k'.call = k.call → ∀ k'' ∈ s.tasks,
      ∃ k₁ ∈ s.tasks.set t k', k₁.call = k''.call := by
    intro k' hcall k'' hk''
    obtain ⟨u, hu⟩ := List.mem_iff_getElem?.mp hk''
    by_cases htu : t = u
    · subst htu
      obtain rfl := Option.some.inj (ht.symm.trans hu)
      exact ⟨k', List.mem_of_getElem? (List.getElem?_set_self (List.getElem?_eq_some_iff.mp ht).1),
        hcall⟩
    · exact ⟨k'', List.mem_of_getElem? ((List.getElem?_set_ne htu).trans hu), rfl⟩
  -- the task that is over has executed the callback
  have herase : ∀ {s₁ : State α β}, s₁.tasks = s.tasks →
      (∀ c, s₁.calls[k.call]? = some c → c.kind = .async true → c.executeCallbackOnlyOnce) →
      ∀ k' ∈ s₁.tasks, (∃ k'' ∈ s₁.tasks.eraseIdx t, k''.call = k'.call) ∨
        ∀ c, s₁.calls[k'.call]? = some c → c.kind = .async true → c.executeCallbackOnlyOnce := by
    intro s₁ htasks hexec k' hk'
    rw [htasks] at hk' ⊢
    rcases List.mem_cons.mp ((perm_cons_eraseIdx ht).mem_iff.mp hk') with rfl | hk'
    · exact .inr hexec
    · exact .inl ⟨k', hk', rfl⟩
  cases k with
  | respond i o a p =>
    obtain ⟨c, hi, ho⟩ := hserves.1
    cases p with
    | set =>
      have hmodify : Awaited (s.modify i (Call.setResponseCommand (some a))) :=
        h.modify hi ⟨rfl, rfl, rfl, id⟩ id fun _ hcreated => hcreated
      exact hmodify.setTasks fun k hk => .inl (hset (.respond i o a .remove) rfl k hk)
    | remove =>
      refine (h.remove fun j c' hj _ heq _ => .inr ?_).setTasks fun k hk =>
        .inl (hset (.respond i o a .complete) rfl k hk)
      exact ⟨_, List.mem_of_getElem? ht, hinv.index_eq hwrap hi hj (ho.trans heq.symm)⟩
    | complete =>
      have hmodify : Awaited (s.modify i fun c => if c.kind = .async true then
          c.executeInvokeCallback else c.setResponseCommand (some a)) := by
        by_cases hkind : c.kind = .async true
        · refine h.modify hi ?_ ?_ ?_ <;> rw [if_pos hkind]
          · exact goes_execute
          · exact once_execute
          · exact fun _ hcreated => stage_execute.trans hcreated
        · refine h.modify hi ?_ ?_ ?_ <;> rw [if_neg hkind]
          · exact ⟨rfl, rfl, rfl, id⟩
          · exact id
          · exact fun _ hcreated => hcreated
      refine hmodify.setTasks (herase rfl fun c' hc' hkind => ?_)
      dsimp only [State.modify, Task.call] at hc'
      rw [List.getElem?_modify_eq, hi, Option.map_eq_map, Option.map_some, Option.some.injEq] at hc'
      subst hc'
      by_cases hasync : c.kind = .async true
      · rw [if_pos hasync]
        exact execute_once hasync
      · rw [if_neg hasync] at hkind
        exact absurd hkind hasync
  | expire i =>
    have hmodify : Awaited (s.modify i Call.executeInvokeCallback) := by
      cases hi : s.calls[i]? with
      | none =>
        have hsame : s.calls.modify i Call.executeInvokeCallback = s.calls :=
          List.modify_eq_self (List.getElem?_eq_none_iff.mp hi)
        unfold State.modify
        rw [hsame]
        exact h
      | some c =>
        exact h.modify hi goes_execute once_execute fun _ hcreated => stage_execute.trans hcreated
    refine hmodify.setTasks (herase rfl fun c' hc' hkind => ?_)
    dsimp only [State.modify, Task.call] at hc'
    rw [List.getElem?_modify_eq] at hc'
    obtain ⟨c, -, rfl⟩ := Option.map_eq_some_iff.mp hc'
    rw [goes_execute.kind] at hkind
    exact execute_once hkind

end Callbacks

/-! ### The main result -/

section Main

variable {supported : α → Bool} {s s' : State α β} {as : List (Action α β)}

end Main

/-- Two calls; the answer to the second overtakes. -/
def twoCalls : List (Action ℕ ℕ) :=
  [.invoke .sync 7, .invoke (.async true) 8, .put 0, .write 0, .put 1, .write 1, .flush 0, .flush 1,
    .accept 1 false, .serve 0 (.returns 80), .receive 0, .advance 0, .advance 0, .advance 0,
    .accept 0 false, .serve 0 (.returns 70), .receive 0, .advance 0, .wake 0, .finish 0]

end CloudMQ.Invocations
