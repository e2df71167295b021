import CloudMQ.Lists
import CloudMQ.Runs
import CloudMQ.Strings
import CloudMQ.Tables

/-!
Long polling: pull requests that are held until messages arrive.

A suspended request is added to the list of its queue. A notification takes the whole list, hands
the requests that have waited long enough, or that there are messages for, to the executor of
pulls, and puts the others back. Suspensions, notifications and the checks of the service's own
thread run at the same time.
-/

namespace CloudMQ.PullRequestHold

open CloudMQ.Utf8 CloudMQ.Strings CloudMQ.Tables CloudMQ.Lists CloudMQ.Runs

def TOPIC_QUEUEID_SEPARATOR : Char := '@'

def buildKey (topic : Text) (queueId : Int32) : Text :=
  topic ++ TOPIC_QUEUEID_SEPARATOR :: valueOf queueId

/-- A request that is suspended, by the number of its suspension. -/
structure PullRequest where
  id : ℕ
  timeoutMillis : ℤ
  suspendTimestamp : ℤ
  pullFromThisOffset : ℤ
deriving DecidableEq

inductive SuspendStage
  | creating
  | adding (mpr : ℕ)
  | ended

structure Suspend where
  key : Text
  request : PullRequest
  stage : SuspendStage

/-- A notification that has got the list's object, that goes through the requests it took, or that
is over. -/
inductive NotifyStage
  | got (mpr : ℕ)
  | looping (mpr : ℕ) (requestList replayList : List PullRequest)
  | ended

structure Notify where
  maxOffset : ℤ
  stage : NotifyStage

/-- The table of the lists, by their objects; the suspensions and notifications ever begun; the
tasks that the executor accepted, and the requests that were added to a list. -/
structure State where
  pullRequestTable : Table Text ℕ
  manyPullRequests : List (List PullRequest)
  suspends : List Suspend
  notifies : List Notify
  submitted : List PullRequest
  suspended : List PullRequest

def newState : State := ⟨∅, [], [], [], [], []⟩

inductive Action
  | suspendPullRequest (topic : Text) (queueId : Int32)
      (timeoutMillis suspendTimestamp pullFromThisOffset : ℤ)
  | putIfAbsent (i : ℕ)
  | addPullRequest (i : ℕ)
  | notifyMessageArriving (topic : Text) (queueId : Int32) (maxOffset : ℤ)
  | checkHoldRequest (key : Text) (offset : ℤ)
  | cloneListAndClear (i : ℕ)
  | turn (i : ℕ) (newestOffset currentTimeMillis : ℤ) (accepted : Bool)
  | replay (i : ℕ)

/-- There are messages for the request, or it has waited for its time. -/
def wakesUp (maxOffset newestOffset currentTimeMillis : ℤ) (request : PullRequest) : Bool :=
  request.pullFromThisOffset < maxOffset || request.pullFromThisOffset < newestOffset ||
  request.suspendTimestamp + request.timeoutMillis ≤ currentTimeMillis

def notifyMessageArriving (topic : Text) (queueId : Int32) (maxOffset : ℤ) (s : State) : State :=
  match s.pullRequestTable.lookup (buildKey topic queueId) with
  | some mpr => { s with notifies := s.notifies ++ [⟨maxOffset, .got mpr⟩] }
  | none => s

/-- A turn through the keys of the table; it may end with a `NumberFormatException`. -/
def checkHoldRequest (key : Text) (offset : ℤ) (s : State) : State :=
  match split TOPIC_QUEUEID_SEPARATOR key with
  | [topic, queueId] =>
    match parseInt queueId with
    | some queueId => notifyMessageArriving topic queueId offset s
    | none => s
  | _ => s

/-- The step of each call. An executor that rejects a task throws, which ends the notification. -/
def step (s : State) : Action → Option State
  | .suspendPullRequest topic queueId timeoutMillis suspendTimestamp pullFromThisOffset =>
    let key := buildKey topic queueId
    some { s with
      suspends := s.suspends ++ [{
        key
        request := ⟨s.suspends.length, timeoutMillis, suspendTimestamp, pullFromThisOffset⟩
        stage := (s.pullRequestTable.lookup key).elim .creating .adding }] }
  | .putIfAbsent i =>
    match s.suspends[i]? with
    | some ⟨key, request, .creating⟩ =>
      match s.pullRequestTable.lookup key with
      | some prev => some { s with suspends := s.suspends.set i ⟨key, request, .adding prev⟩ }
      | none =>
        some { s with
          pullRequestTable := s.pullRequestTable.insert key s.manyPullRequests.length
          manyPullRequests := s.manyPullRequests ++ [[]]
          suspends := s.suspends.set i ⟨key, request, .adding s.manyPullRequests.length⟩ }
    | _ => none
  | .addPullRequest i =>
    match s.suspends[i]? with
    | some ⟨key, request, .adding mpr⟩ =>
      some { s with
        manyPullRequests := s.manyPullRequests.modify mpr (· ++ [request])
        suspends := s.suspends.set i ⟨key, request, .ended⟩
        suspended := s.suspended ++ [request] }
    | _ => none
  | .notifyMessageArriving topic queueId maxOffset =>
    some (notifyMessageArriving topic queueId maxOffset s)
  | .checkHoldRequest key offset =>
    if key ∈ s.pullRequestTable then some (checkHoldRequest key offset s) else none
  | .cloneListAndClear i =>
    match s.notifies[i]? with
    | some ⟨maxOffset, .got mpr⟩ =>
      let pullRequestList := s.manyPullRequests[mpr]?.getD []
      if pullRequestList.isEmpty then
        some { s with notifies := s.notifies.set i ⟨maxOffset, .ended⟩ }
      else
        some { s with
          manyPullRequests := s.manyPullRequests.modify mpr fun _ => []
          notifies := s.notifies.set i ⟨maxOffset, .looping mpr pullRequestList []⟩ }
    | _ => none
  | .turn i newestOffset currentTimeMillis accepted =>
    match s.notifies[i]? with
    | some ⟨maxOffset, .looping mpr (request :: requestList) replayList⟩ =>
      if wakesUp maxOffset newestOffset currentTimeMillis request then
        if accepted then
          some { s with
            notifies := s.notifies.set i ⟨maxOffset, .looping mpr requestList replayList⟩
            submitted := s.submitted ++ [request] }
        else some { s with notifies := s.notifies.set i ⟨maxOffset, .ended⟩ }
      else
        some { s with
          notifies := s.notifies.set i
            ⟨maxOffset, .looping mpr requestList (replayList ++ [request])⟩ }
    | _ => none
  | .replay i =>
    match s.notifies[i]? with
    | some ⟨maxOffset, .looping mpr [] replayList⟩ =>
      some { s with
        manyPullRequests := s.manyPullRequests.modify mpr (· ++ replayList)
        notifies := s.notifies.set i ⟨maxOffset, .ended⟩ }
    | _ => none

/-! ### The promise -/

/-- What a notification has taken and not yet handed on. -/
def Notify.taken (n : Notify) : List PullRequest :=
  match n.stage with
  | .looping _ requestList replayList => requestList ++ replayList
  | _ => []

/-- How often a request is held, taken and submitted. -/
def places (s : State) (r : PullRequest) : ℕ :=
  s.manyPullRequests.flatten.count r + (s.notifies.flatMap Notify.taken).count r +
    s.submitted.count r

/-- Every suspended request is in exactly one place. -/
def Sound (s : State) : Prop := ∀ r ∈ s.suspended, places s r = 1

/-- The executor accepts the task of a request that wakes up. -/
def Accepted (s : State) : Action → Prop
  | .turn i newestOffset currentTimeMillis accepted =>
    ∀ maxOffset mpr request requestList replayList,
      s.notifies[i]? = some ⟨maxOffset, .looping mpr (request :: requestList) replayList⟩ →
      wakesUp maxOffset newestOffset currentTimeMillis request → accepted = true
  | _ => True

/-! ### The invariant -/

/-- The list that a suspension is going to add to. -/
def SuspendStage.object : SuspendStage → Option ℕ
  | .adding mpr => some mpr
  | _ => none

/-- The list that a notification works on. -/
def NotifyStage.object : NotifyStage → Option ℕ
  | .got mpr => some mpr
  | .looping mpr _ _ => some mpr
  | .ended => none

structure Inv (s : State) : Prop where
  count : ∀ r, s.suspended.count r = places s r
  nodup : s.suspended.Nodup
  ids : ∀ (i : ℕ) sp, s.suspends[i]? = some sp → sp.request.id = i
  past : ∀ r ∈ s.suspended, ∃ sp, s.suspends[r.id]? = some sp ∧ sp.stage = .ended
  table : ∀ key mpr, s.pullRequestTable.lookup key = some mpr → mpr < s.manyPullRequests.length
  adding : ∀ (i : ℕ) sp mpr, s.suspends[i]? = some sp → sp.stage.object = some mpr →
    mpr < s.manyPullRequests.length
  taking : ∀ (i : ℕ) n mpr, s.notifies[i]? = some n → n.stage.object = some mpr →
    mpr < s.manyPullRequests.length

lemma inv_new : Inv newState where
  count := fun _ => rfl
  nodup := List.nodup_nil
  ids := fun _ _ h => by cases h
  past := fun _ h => absurd h List.not_mem_nil
  table := fun _ _ h => by cases h
  adding := fun _ _ _ h => by cases h
  taking := fun _ _ _ h => by cases h

section

variable {s s' : State}

lemma Inv.sound (h : Inv s) : Sound s := fun r hr => by
  rw [← h.count, List.count_eq_one_of_mem h.nodup hr]

/-! ### Suspensions -/

/-- A suspension that goes on has not added its request. -/
lemma Inv.past_set (h : Inv s) {i : ℕ} {sp : Suspend} (hi : s.suspends[i]? = some sp)
    (hopen : sp.stage ≠ .ended) (sp' : Suspend) {r : PullRequest} (hr : r ∈ s.suspended) :
    r.id ≠ i ∧ ∃ x, (s.suspends.set i sp')[r.id]? = some x ∧ x.stage = .ended := by
  obtain ⟨x, hx, hended⟩ := h.past r hr
  have hne : r.id ≠ i := by
    rintro heq
    rw [heq, hi] at hx
    cases hx
    exact hopen hended
  exact ⟨hne, x, by rw [List.getElem?_set_ne hne.symm, hx], hended⟩

lemma Inv.suspend (h : Inv s) {sp : Suspend} (hid : sp.request.id = s.suspends.length)
    (hobject : ∀ mpr, sp.stage.object = some mpr → mpr < s.manyPullRequests.length) :
    Inv { s with suspends := s.suspends ++ [sp] } := by
  refine ⟨h.count, h.nodup, ?_, ?_, h.table, ?_, h.taking⟩
  · intro i x hx
    rcases getElem?_concat_cases hx with ⟨rfl, rfl⟩ | hx
    · exact hid
    · exact h.ids i x hx
  · intro r hr
    obtain ⟨x, hx, hended⟩ := h.past r hr
    exact ⟨x, getElem?_append_of_getElem? hx, hended⟩
  · intro i x mpr hx hmpr
    rcases getElem?_concat_cases hx with ⟨-, rfl⟩ | hx
    · exact hobject mpr hmpr
    · exact h.adding i x mpr hx hmpr

/-- A suspension that has got a list to add to. -/
lemma Inv.setSuspend (h : Inv s) {i : ℕ} {sp sp' : Suspend} (hi : s.suspends[i]? = some sp)
    (hopen : sp.stage ≠ .ended) (hrequest : sp'.request = sp.request)
    (hobject : ∀ mpr, sp'.stage.object = some mpr → mpr < s.manyPullRequests.length) :
    Inv { s with suspends := s.suspends.set i sp' } := by
  refine ⟨h.count, h.nodup, ?_, fun r hr => (h.past_set hi hopen sp' hr).2, h.table, ?_, h.taking⟩
  · intro j x hx
    rcases getElem?_set_cases hx with ⟨rfl, rfl⟩ | ⟨-, hx⟩
    · rw [hrequest, h.ids _ sp hi]
    · exact h.ids j x hx
  · intro j x mpr hx hmpr
    rcases getElem?_set_cases hx with ⟨-, rfl⟩ | ⟨-, hx⟩
    · exact hobject mpr hmpr
    · exact h.adding j x mpr hx hmpr

/-- A new list for a key. -/
lemma Inv.newList (h : Inv s) (key : Text) :
    Inv { s with
      pullRequestTable := s.pullRequestTable.insert key s.manyPullRequests.length
      manyPullRequests := s.manyPullRequests ++ [[]] } := by
  have hlt : ∀ {mpr}, mpr < s.manyPullRequests.length →
      mpr < (s.manyPullRequests ++ [[]]).length := fun hmpr => by
    rw [List.length_append]
    exact Nat.lt_add_right _ hmpr
  refine ⟨fun r => ?_, h.nodup, h.ids, h.past, fun key' mpr hlookup => ?_,
    fun i x mpr hx hmpr => hlt (h.adding i x mpr hx hmpr),
    fun i n mpr hn hmpr => hlt (h.taking i n mpr hn hmpr)⟩
  · rw [h.count, places, places]
    simp only [List.flatten_append, List.flatten_cons, List.flatten_nil, List.append_nil]
  · rw [lookup_insert_ite] at hlookup
    split_ifs at hlookup
    · cases hlookup
      simp
    · exact hlt (h.table key' mpr hlookup)

lemma Inv.addPullRequest (h : Inv s) {i : ℕ} {key : Text} {request : PullRequest} {mpr : ℕ}
    (hi : s.suspends[i]? = some ⟨key, request, .adding mpr⟩) :
    Inv { s with
      manyPullRequests := s.manyPullRequests.modify mpr (· ++ [request])
      suspends := s.suspends.set i ⟨key, request, .ended⟩
      suspended := s.suspended ++ [request] } := by
  have hid : request.id = i := h.ids i _ hi
  have hopen : (⟨key, request, .adding mpr⟩ : Suspend).stage ≠ .ended := by simp
  have hset := fun {r} => h.past_set hi hopen ⟨key, request, .ended⟩ (r := r)
  have hnew : request ∉ s.suspended := fun hmem => (hset hmem).1 hid
  have hlt := h.adding i _ mpr hi rfl
  refine ⟨fun r => ?_, ?_, ?_, ?_, ?_, ?_, ?_⟩
  · have hold := h.count r
    have hcount := count_flatten_modify (· ++ [request]) (List.getElem?_eq_getElem hlt) r
    simp only [places, List.count_append] at hold hcount ⊢
    omega
  · rw [List.nodup_append]
    refine ⟨h.nodup, List.nodup_singleton request, fun r hr r' hr' heq => ?_⟩
    rw [List.mem_singleton] at hr'
    exact hnew (hr' ▸ heq ▸ hr)
  · intro j x hx
    rcases getElem?_set_cases hx with ⟨rfl, rfl⟩ | ⟨-, hx⟩
    · exact hid
    · exact h.ids j x hx
  · intro r hr
    rcases List.mem_append.mp hr with hr | hr
    · exact (hset hr).2
    · rw [List.mem_singleton] at hr
      subst hr
      exact ⟨_, by rw [hid]; exact getElem?_set_of_getElem? hi, rfl⟩
  · intro key' mpr' hlookup
    rw [List.length_modify]
    exact h.table key' mpr' hlookup
  · intro j x mpr' hx hmpr
    rw [List.length_modify]
    rcases getElem?_set_cases hx with ⟨-, rfl⟩ | ⟨-, hx⟩
    · cases hmpr
    · exact h.adding j x mpr' hx hmpr
  · intro j n mpr' hn hmpr
    rw [List.length_modify]
    exact h.taking j n mpr' hn hmpr

/-! ### Notifications -/

lemma Inv.notify (h : Inv s) (topic : Text) (queueId : Int32) (maxOffset : ℤ) :
    Inv (notifyMessageArriving topic queueId maxOffset s) := by
  rw [notifyMessageArriving]
  cases hlookup : s.pullRequestTable.lookup (buildKey topic queueId) with
  | none => exact h
  | some mpr =>
    refine ⟨fun r => ?_, h.nodup, h.ids, h.past, h.table, h.adding, fun i n mpr' hn hmpr => ?_⟩
    · rw [h.count, places, places]
      simp only [List.flatMap_append, List.flatMap_cons, List.flatMap_nil, Notify.taken,
        List.append_nil]
    · rcases getElem?_concat_cases hn with ⟨-, rfl⟩ | hn
      · cases hmpr
        exact h.table _ _ hlookup
      · exact h.taking i n mpr' hn hmpr

lemma Inv.checkHoldRequest (h : Inv s) (key : Text) (offset : ℤ) :
    Inv (checkHoldRequest key offset s) := by
  rw [PullRequestHold.checkHoldRequest]
  split
  · split
    · exact h.notify _ _ _
    · exact h
  · exact h

/-- A notification goes on: what it took, the lists and the executor change together. -/
lemma Inv.setNotify (h : Inv s) {i : ℕ} {n n' : Notify} (hi : s.notifies[i]? = some n)
    {manyPullRequests : List (List PullRequest)} {submitted : List PullRequest}
    (hlength : manyPullRequests.length = s.manyPullRequests.length)
    (hobject : ∀ mpr, n'.stage.object = some mpr → n.stage.object = some mpr)
    (hcount : ∀ r, manyPullRequests.flatten.count r + n'.taken.count r + submitted.count r =
      s.manyPullRequests.flatten.count r + n.taken.count r + s.submitted.count r) :
    Inv { s with
      manyPullRequests := manyPullRequests
      notifies := s.notifies.set i n'
      submitted := submitted } := by
  refine ⟨fun r => ?_, h.nodup, h.ids, h.past, ?_, ?_, ?_⟩
  · have hold := h.count r
    have htaken := count_flatMap_set Notify.taken hi n' r
    have hchange := hcount r
    simp only [places] at hold ⊢
    omega
  · exact fun key mpr hlookup => hlength ▸ h.table key mpr hlookup
  · exact fun j x mpr hx hmpr => hlength ▸ h.adding j x mpr hx hmpr
  · intro j x mpr hx hmpr
    rw [hlength]
    rcases getElem?_set_cases hx with ⟨-, rfl⟩ | ⟨-, hx⟩
    · exact h.taking i n mpr hi (hobject mpr hmpr)
    · exact h.taking j x mpr hx hmpr

lemma Inv.cloneListAndClear (h : Inv s) {i : ℕ}
    (hs : step s (.cloneListAndClear i) = some s') : Inv s' := by
  simp only [step] at hs
  split at hs
  · rename_i maxOffset mpr hi
    have hlt := h.taking i _ mpr hi rfl
    have hlist := List.getElem?_eq_getElem hlt
    rw [hlist, Option.getD_some] at hs
    split_ifs at hs
    · cases hs
      refine h.setNotify hi rfl (fun _ hmpr => by cases hmpr) fun r => rfl
    · cases hs
      refine h.setNotify hi (List.length_modify _ _ _) (fun _ hmpr => hmpr) fun r => ?_
      have hcount := count_flatten_modify (fun _ => []) hlist r
      simp only [Notify.taken, List.append_nil, List.count_nil] at hcount ⊢
      omega
  · cases hs

lemma Inv.turn (h : Inv s) {i : ℕ} {newestOffset currentTimeMillis : ℤ} {accepted : Bool}
    (hok : Accepted s (.turn i newestOffset currentTimeMillis accepted))
    (hs : step s (.turn i newestOffset currentTimeMillis accepted) = some s') : Inv s' := by
  simp only [step] at hs
  split at hs
  · rename_i maxOffset mpr request requestList replayList hi
    split_ifs at hs with hwakes haccepted
    · cases hs
      refine h.setNotify hi rfl (fun _ hmpr => hmpr) fun r => ?_
      simp only [Notify.taken, List.cons_append, List.count_cons, List.count_append,
        List.count_nil]
      omega
    · exact absurd (hok _ _ _ _ _ hi hwakes) haccepted
    · cases hs
      refine h.setNotify hi rfl (fun _ hmpr => hmpr) fun r => ?_
      simp only [Notify.taken, List.cons_append, List.count_cons, List.count_append,
        List.count_nil]
      omega
  · cases hs

lemma Inv.replay (h : Inv s) {i : ℕ} (hs : step s (.replay i) = some s') : Inv s' := by
  simp only [step] at hs
  split at hs
  · rename_i maxOffset mpr replayList hi
    have hlist := List.getElem?_eq_getElem (h.taking i _ mpr hi rfl)
    cases hs
    refine h.setNotify hi (List.length_modify _ _ _) (fun _ hmpr => by cases hmpr) fun r => ?_
    have hcount := count_flatten_modify (· ++ replayList) hlist r
    simp only [Notify.taken, List.count_append, List.nil_append, List.count_nil] at hcount ⊢
    omega
  · cases hs

theorem inv_step {a : Action} (h : Inv s) (hok : Accepted s a) (hs : step s a = some s') :
    Inv s' := by
  cases a with
  | suspendPullRequest topic queueId timeoutMillis suspendTimestamp pullFromThisOffset =>
    cases hs
    refine h.suspend rfl fun mpr hmpr => ?_
    cases hlookup : s.pullRequestTable.lookup (buildKey topic queueId) with
    | none =>
      rw [hlookup] at hmpr
      cases hmpr
    | some mpr' =>
      rw [hlookup] at hmpr
      cases hmpr
      exact h.table _ _ hlookup
  | putIfAbsent i =>
    simp only [step] at hs
    split at hs
    · rename_i key request hi
      split at hs
      · rename_i prev hlookup
        cases hs
        refine h.setSuspend hi (by simp) rfl fun mpr hmpr => ?_
        cases hmpr
        exact h.table _ _ hlookup
      · cases hs
        refine (h.newList key).setSuspend hi (by simp) rfl fun mpr hmpr => ?_
        cases hmpr
        simp
    · cases hs
  | addPullRequest i =>
    simp only [step] at hs
    split at hs
    · rename_i key request mpr hi
      cases hs
      exact h.addPullRequest hi
    · cases hs
  | notifyMessageArriving topic queueId maxOffset =>
    cases hs
    exact h.notify topic queueId maxOffset
  | checkHoldRequest key offset =>
    obtain ⟨-, hs⟩ := Option.ite_none_right_eq_some.mp hs
    cases hs
    exact h.checkHoldRequest key offset
  | cloneListAndClear i => exact h.cloneListAndClear hs
  | turn i newestOffset currentTimeMillis accepted => exact h.turn hok hs
  | replay i => exact h.replay hs

/-- A rejected request is nowhere. -/
lemma Inv.accepted {a : Action} (h : Inv s) (hsound : ∀ s', step s a = some s' → Sound s') :
    Accepted s a := by
  cases a with
  | turn i newestOffset currentTimeMillis accepted =>
    intro maxOffset mpr request requestList replayList hi hwakes
    by_contra hrejected
    have hafter := hsound { s with notifies := s.notifies.set i ⟨maxOffset, .ended⟩ } <| by
      simp only [step, hi, hwakes, if_true]
      rw [if_neg hrejected]
    have htaken := count_flatMap_set Notify.taken hi ⟨maxOffset, .ended⟩ request
    simp only [Notify.taken, List.cons_append, List.count_cons_self, List.count_nil] at htaken
    have hmem : request ∈ s.suspended := by
      rw [← List.count_pos_iff, h.count, places]
      omega
    have hone := h.sound request hmem
    have hone' := hafter request hmem
    simp only [places] at hone hone'
    omega
  | _ => trivial

end

/-- **Long polling.** Every suspended request is in exactly one place all along a run exactly when
the executor accepts the task of every request that wakes up. -/
theorem requests_in_one_place (as : List Action) :
    (∀ as', as' <+: as → ∀ s, run step newState as' = some s → Sound s) ↔
      Meets step Accepted newState as :=
  holds_along_iff (fun _ _ _ => inv_step) (fun _ => Inv.sound) (fun _ _ => Inv.accepted) inv_new

/-- The state after a run. -/
def after (as : List Action) : State := (run step newState as).getD newState

/-- The executor rejects the task of the first of two requests. -/
def rejectedTask : List Action :=
  [.suspendPullRequest ['t'] 0 15000 0 5, .putIfAbsent 0, .addPullRequest 0,
    .suspendPullRequest ['t'] 0 15000 0 5, .addPullRequest 1,
    .notifyMessageArriving ['t'] 0 6, .cloneListAndClear 0, .turn 0 6 100 false]

theorem requests_rejected : ¬ ∀ as s, run step newState as = some s → Sound s := by
  intro h
  have hsound := h rejectedTask (after rejectedTask) rfl ⟨1, 15000, 0, 5⟩
    (List.mem_cons_of_mem _ List.mem_cons_self)
  exact absurd hsound (by decide)

end CloudMQ.PullRequestHold
