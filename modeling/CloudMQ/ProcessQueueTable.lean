import CloudMQ.Lists
import CloudMQ.PulledMessages
import CloudMQ.Tables
import CloudMQ.TopicRoutes

/-!
The process queues of a push consumer and the pull requests that feed them.

A rebalance drops the process queues of a topic that are not allocated any more, removes them from
the table, and puts new ones in for the allocated queues that the table lacks, each with a pull
request. A pull request is handed from pull to pull until it finds its process queue dropped.
-/

namespace CloudMQ.ProcessQueueTable

open CloudMQ.Utf8 CloudMQ.Tables CloudMQ.Lists CloudMQ.TopicRoutes
open CloudMQ.PulledMessages (ProcessQueue)

/-- `processQueue` is the number of a process queue. -/
structure PullRequest where
  messageQueue : MessageQueue
  processQueue : ℕ
  nextOffset : ℤ
deriving DecidableEq

/-- The process queues by number, the table of those in use, and the pull requests that are handed
on. -/
structure Consumer where
  consumeOrderly : Bool
  clustering : Bool
  processQueues : List ProcessQueue := []
  processQueueTable : Table MessageQueue ℕ := ∅
  pullRequestQueue : List PullRequest := []

/-- A round for a topic: what was allocated of it, in the order it is walked through, and what the
round meets: the locks it gets in time, the queues that were not pulled for too long, and the
answers for the new ones. -/
structure Round where
  topic : Text
  mqSet : List MessageQueue
  topic_eq : ∀ mq ∈ mqSet, mq.topic = topic
  tryLock : MessageQueue → Bool
  isPullExpired : MessageQueue → Bool
  computePullFromWhere : MessageQueue → ℤ

namespace Consumer

variable (c : Consumer)

def isDropped (pq : ℕ) : Bool := ((c.processQueues[pq]?).map (·.dropped)).getD true

def setDropped (pq : ℕ) : Consumer :=
  { c with processQueues := c.processQueues.modify pq (·.setDropped true) }

/-- Progress is written and forgotten; a queue that is consumed in order is unlocked, if no thread
consumes it. -/
def removeUnnecessaryMessageQueue (tryLock : Bool) : Bool :=
  if c.consumeOrderly && c.clustering then tryLock else true

/-- A queue that is not allocated any more, or whose pulling has stopped. -/
def Leaves (r : Round) (mq : MessageQueue) : Prop :=
  mq.topic = r.topic ∧ (mq ∉ r.mqSet ∨ r.isPullExpired mq)

instance (r : Round) (mq : MessageQueue) : Decidable (Leaves r mq) :=
  inferInstanceAs (Decidable (_ ∧ _))

/-- A turn of the loop over the table, with `changed`. -/
def removeTurn (r : Round) (t : Consumer × Bool) (mq : MessageQueue) : Consumer × Bool :=
  match t.1.processQueueTable.lookup mq with
  | none => t
  | some pq =>
    if Leaves r mq then
      let c := t.1.setDropped pq
      if c.removeUnnecessaryMessageQueue (r.tryLock mq) then
        ({ c with processQueueTable := c.processQueueTable.erase mq }, true)
      else (c, t.2)
    else t

/-- A turn of the loop over the allocated queues, with `changed` and the new pull requests. -/
def addTurn (r : Round) (t : (Consumer × Bool) × List PullRequest) (mq : MessageQueue) :
    (Consumer × Bool) × List PullRequest :=
  let c := t.1.1
  if mq ∈ c.processQueueTable then t
  else
    let nextOffset := r.computePullFromWhere mq
    if 0 ≤ nextOffset then
      let pq := c.processQueues.length
      (({ c with
          processQueues := c.processQueues ++ [{}]
          processQueueTable := c.processQueueTable.insert mq pq }, true),
        t.2 ++ [⟨mq, pq, nextOffset⟩])
    else t

def dispatchPullRequest (pullRequestList : List PullRequest) : Consumer :=
  { c with pullRequestQueue := c.pullRequestQueue ++ pullRequestList }

/-- The turns of the first loop see and change one entry each, so their order does not matter. -/
def removeLoop (r : Round) : Consumer × Bool :=
  c.processQueueTable.keys.foldl (removeTurn r) (c, false)

def updateProcessQueueTableInRebalance (r : Round) : Consumer × Bool :=
  let t := r.mqSet.foldl (addTurn r) (c.removeLoop r, [])
  (t.1.1.dispatchPullRequest t.2, t.1.2)

/-- A turn of the loop that takes queues of topics without a subscription out of the table. -/
def truncateTurn (subscriptionInner : Text → Bool) (c : Consumer) (mq : MessageQueue) : Consumer :=
  if subscriptionInner mq.topic then c
  else
    match c.processQueueTable.lookup mq with
    | none => c
    | some pq =>
      { c with processQueueTable := c.processQueueTable.erase mq : Consumer }.setDropped pq

def truncateMessageQueueNotMyTopic (subscriptionInner : Text → Bool) : Consumer :=
  c.processQueueTable.keys.foldl (truncateTurn subscriptionInner) c

/-- The topics that have queues and clients, in the order they are walked through. -/
def doRebalance (rounds : List Round) (subscriptionInner : Text → Bool) : Consumer :=
  (rounds.foldl (fun c r => (c.updateProcessQueueTableInRebalance r).1) c)
    |>.truncateMessageQueueNotMyTopic subscriptionInner

/-- The queue is not there for the pull request any more, or the request is handed on. -/
def pullMessage (i : ℕ) (nextBeginOffset : ℤ) : Consumer :=
  match c.pullRequestQueue[i]? with
  | none => c
  | some request =>
    if c.isDropped request.processQueue then
      { c with pullRequestQueue := c.pullRequestQueue.eraseIdx i }
    else
      { c with pullRequestQueue :=
          c.pullRequestQueue.set i { request with nextOffset := nextBeginOffset } }

/-- The answer that the offset of a pull is illegal: the request is not handed on. -/
def offsetIllegal (i : ℕ) : Consumer :=
  match c.pullRequestQueue[i]? with
  | none => c
  | some request =>
    { c with pullRequestQueue := c.pullRequestQueue.eraseIdx i : Consumer }.setDropped
      request.processQueue

def removeProcessQueue (mq : MessageQueue) : Consumer :=
  match c.processQueueTable.lookup mq with
  | none => c
  | some prev =>
    { c with processQueueTable := c.processQueueTable.erase mq : Consumer }.setDropped prev

def clear (pq : ℕ) : Consumer := { c with processQueues := c.processQueues.modify pq (·.clear) }

/-- A turn of the loop that drops the queues of a topic and the messages they hold. -/
def resetTurn (topic : Text) (c : Consumer) (mq : MessageQueue) : Consumer :=
  if topic = mq.topic then
    match c.processQueueTable.lookup mq with
    | none => c
    | some pq => (c.setDropped pq).clear pq
  else c

/-- The offsets of the table go to the offset store, twice and ten seconds apart; here is what
happens to the process queues. -/
def resetOffset (topic : Text) (offsetTable : Table MessageQueue ℤ) (rounds : List Round)
    (subscriptionInner : Text → Bool) : Consumer :=
  let c := c.processQueueTable.keys.foldl (resetTurn topic) c
  let c := offsetTable.keys.foldl
    (fun c mq => { c with processQueueTable := c.processQueueTable.erase mq : Consumer }) c
  c.doRebalance rounds subscriptionInner

/-! ### Queues that are pulled -/

/-- A pull request for the queue that will not be abandoned. -/
def Live (mq : MessageQueue) (request : PullRequest) : Prop :=
  request.messageQueue = mq ∧ c.isDropped request.processQueue = false

instance (mq : MessageQueue) (request : PullRequest) : Decidable (c.Live mq request) :=
  inferInstanceAs (Decidable (_ ∧ _))

/-- The queue has a process queue that is not dropped, and exactly one pull request that will not
be abandoned, which is for that process queue. -/
def Pulled (mq : MessageQueue) : Prop :=
  ∃ pq, c.processQueueTable.lookup mq = some pq ∧ c.isDropped pq = false ∧
    c.pullRequestQueue.countP (c.Live mq) = 1 ∧
    ∀ request ∈ c.pullRequestQueue, c.Live mq request → request.processQueue = pq

/-- The process queues that are not dropped are those of the table, each with one pull request. -/
structure Inv : Prop where
  table : ∀ mq pq, c.processQueueTable.lookup mq = some pq → pq < c.processQueues.length
  requests : ∀ request ∈ c.pullRequestQueue, request.processQueue < c.processQueues.length
  apart : ∀ mq mq' pq, c.processQueueTable.lookup mq = some pq →
    c.processQueueTable.lookup mq' = some pq → mq = mq'
  owned : ∀ request ∈ c.pullRequestQueue, c.isDropped request.processQueue = false →
    c.processQueueTable.lookup request.messageQueue = some request.processQueue
  served : ∀ mq pq, c.processQueueTable.lookup mq = some pq → c.isDropped pq = false →
    c.pullRequestQueue.countP (c.Live mq) = 1

variable {c}

lemma countP_live {c' : Consumer} {mq : MessageQueue} {l : List PullRequest}
    (h : ∀ request ∈ l, c'.Live mq request ↔ c.Live mq request) :
    l.countP (c'.Live mq) = l.countP (c.Live mq) :=
  List.countP_congr fun request hmem => by
    rw [decide_eq_true_iff, decide_eq_true_iff]
    exact h request hmem

lemma Inv.pulled (h : c.Inv) {mq : MessageQueue} {pq : ℕ}
    (hlookup : c.processQueueTable.lookup mq = some pq) (hdropped : c.isDropped pq = false) :
    c.Pulled mq := by
  refine ⟨pq, hlookup, hdropped, h.served mq pq hlookup hdropped, ?_⟩
  rintro request hmem ⟨rfl, hlive⟩
  exact Option.some.inj ((h.owned request hmem hlive).symm.trans hlookup)

lemma inv_new (consumeOrderly clustering : Bool) : Inv { consumeOrderly, clustering } where
  table := fun _ _ h => by cases h
  requests := fun _ h => by cases h
  apart := fun _ _ _ h => by cases h
  owned := fun _ h => by cases h
  served := fun _ _ h => by cases h

/-! ### Dropping and removing -/

@[simp] lemma isDropped_setDropped (pq x : ℕ) :
    (c.setDropped pq).isDropped x = (decide (x = pq) || c.isDropped x) := by
  simp only [isDropped, setDropped, List.getElem?_modify]
  by_cases hx : pq = x
  · subst hx
    cases c.processQueues[pq]? <;> simp [ProcessQueue.setDropped]
  · rw [decide_eq_false (Ne.symm hx), Bool.false_or]
    cases c.processQueues[x]? <;> simp [hx]

lemma isDropped_setDropped_eq_false {pq x : ℕ} :
    (c.setDropped pq).isDropped x = false ↔ x ≠ pq ∧ c.isDropped x = false := by
  rw [isDropped_setDropped, Bool.or_eq_false_iff, decide_eq_false_iff_not]

lemma length_setDropped (pq : ℕ) :
    (c.setDropped pq).processQueues.length = c.processQueues.length := List.length_modify ..

lemma Inv.setDropped (h : c.Inv) (pq : ℕ) : (c.setDropped pq).Inv where
  table := fun mq p hp => by
    rw [length_setDropped]
    exact h.table mq p hp
  requests := fun request hmem => by
    rw [length_setDropped]
    exact h.requests request hmem
  apart := h.apart
  owned := fun request hmem hlive =>
    h.owned request hmem (isDropped_setDropped_eq_false.mp hlive).2
  served := fun mq p hp hlive => by
    obtain ⟨hne, hlive⟩ := isDropped_setDropped_eq_false.mp hlive
    rw [← h.served mq p hp hlive]
    refine countP_live fun request hmem => ?_
    simp only [Live, isDropped_setDropped_eq_false]
    constructor
    · exact fun ⟨hmq, _, hd⟩ => ⟨hmq, hd⟩
    · -- The live requests of the queue are for its own process queue.
      rintro ⟨rfl, hd⟩
      have hown := (h.owned request hmem hd).symm.trans hp
      exact ⟨rfl, Option.some.inj hown ▸ hne, hd⟩

lemma Inv.erase (h : c.Inv) {mq : MessageQueue}
    (hdropped : ∀ pq, c.processQueueTable.lookup mq = some pq → c.isDropped pq = true) :
    Inv { c with processQueueTable := c.processQueueTable.erase mq } where
  table := fun mq' pq hp => by
    dsimp only at hp
    rw [lookup_erase_ite] at hp
    split_ifs at hp
    exact h.table mq' pq hp
  requests := h.requests
  apart := fun mq₁ mq₂ pq h₁ h₂ => by
    dsimp only at h₁ h₂
    rw [lookup_erase_ite] at h₁ h₂
    split_ifs at h₁ h₂
    exact h.apart mq₁ mq₂ pq h₁ h₂
  owned := fun request hmem hlive => by
    have hown := h.owned request hmem hlive
    dsimp only
    rw [lookup_erase_ite, if_neg, hown]
    rintro rfl
    exact Bool.false_ne_true (hlive.symm.trans (hdropped _ hown))
  served := fun mq' pq hp hlive => by
    dsimp only at hp
    rw [lookup_erase_ite] at hp
    split_ifs at hp
    exact h.served mq' pq hp hlive

/-- A process queue is dropped and taken out of the table. -/
lemma Inv.remove (h : c.Inv) {mq : MessageQueue} {pq : ℕ}
    (hlookup : c.processQueueTable.lookup mq = some pq) :
    Inv { c.setDropped pq with processQueueTable := c.processQueueTable.erase mq } := by
  refine Inv.erase (h.setDropped pq) fun p hp => ?_
  obtain rfl := Option.some.inj (hlookup.symm.trans hp)
  rw [isDropped_setDropped, decide_eq_true rfl, Bool.true_or]

/-! ### A new process queue -/

/-- A queue gets a process queue and its pull request. -/
def add (c : Consumer) (mq : MessageQueue) (nextOffset : ℤ) : Consumer :=
  { c with
    processQueues := c.processQueues ++ [{}]
    processQueueTable := c.processQueueTable.insert mq c.processQueues.length
    pullRequestQueue := c.pullRequestQueue ++ [⟨mq, c.processQueues.length, nextOffset⟩] }

lemma isDropped_add_of_lt {mq : MessageQueue} {nextOffset : ℤ} {x : ℕ}
    (hx : x < c.processQueues.length) : (c.add mq nextOffset).isDropped x = c.isDropped x := by
  simp only [isDropped, add, List.getElem?_append_left hx]

lemma isDropped_add_self (mq : MessageQueue) (nextOffset : ℤ) :
    (c.add mq nextOffset).isDropped c.processQueues.length = false := by
  simp only [isDropped, add, List.getElem?_concat_length]
  rfl

lemma Inv.add (h : c.Inv) {mq : MessageQueue} (hnone : c.processQueueTable.lookup mq = none)
    (nextOffset : ℤ) : (c.add mq nextOffset).Inv := by
  have hlength : (c.add mq nextOffset).processQueues.length = c.processQueues.length + 1 :=
    List.length_append
  have hlookup : ∀ mq', (c.add mq nextOffset).processQueueTable.lookup mq' =
      if mq' = mq then some c.processQueues.length else c.processQueueTable.lookup mq' :=
    fun mq' => lookup_insert_ite ..
  have hqueue : (c.add mq nextOffset).pullRequestQueue =
      c.pullRequestQueue ++ [⟨mq, c.processQueues.length, nextOffset⟩] := rfl
  refine ⟨fun mq' pq hp => ?_, fun request hmem => ?_, fun mq₁ mq₂ pq h₁ h₂ => ?_,
    fun request hmem hlive => ?_, fun mq' pq hp hlive => ?_⟩
  · rw [hlookup] at hp
    split_ifs at hp
    · cases hp
      omega
    · exact hlength ▸ Nat.lt_succ_of_lt (h.table mq' pq hp)
  · rw [hqueue, List.mem_append, List.mem_singleton] at hmem
    rcases hmem with hmem | rfl
    · exact hlength ▸ Nat.lt_succ_of_lt (h.requests request hmem)
    · exact hlength ▸ Nat.lt_succ_self _
  · rw [hlookup] at h₁ h₂
    split_ifs at h₁ h₂ with hm₁ hm₂ hm₂
    · exact hm₁.trans hm₂.symm
    · cases h₁
      exact absurd (h.table mq₂ _ h₂) (lt_irrefl _)
    · cases h₂
      exact absurd (h.table mq₁ _ h₁) (lt_irrefl _)
    · exact h.apart mq₁ mq₂ pq h₁ h₂
  · rw [hqueue, List.mem_append, List.mem_singleton] at hmem
    rw [hlookup]
    rcases hmem with hmem | rfl
    · rw [isDropped_add_of_lt (h.requests request hmem)] at hlive
      have hown := h.owned request hmem hlive
      rw [if_neg, hown]
      rintro heq
      rw [heq, hnone] at hown
      cases hown
    · exact if_pos rfl
  · have hold : c.pullRequestQueue.countP ((c.add mq nextOffset).Live mq') =
        c.pullRequestQueue.countP (c.Live mq') := by
      refine countP_live fun request hmem => ?_
      rw [Live, Live, isDropped_add_of_lt (h.requests request hmem)]
    rw [hqueue, List.countP_append, hold, List.countP_singleton]
    rw [hlookup] at hp
    split_ifs at hp with hmq
    · subst hmq
      have hzero : c.pullRequestQueue.countP (c.Live mq') = 0 := by
        rw [List.countP_eq_zero]
        rintro request hmem hl
        obtain ⟨rfl, hd⟩ := of_decide_eq_true hl
        rw [h.owned request hmem hd] at hnone
        cases hnone
      rw [hzero, if_pos (decide_eq_true ⟨rfl, isDropped_add_self mq' nextOffset⟩)]
    · rw [isDropped_add_of_lt (h.table mq' pq hp)] at hlive
      rw [h.served mq' pq hp hlive, if_neg]
      exact fun hl => hmq (of_decide_eq_true hl).1.symm

/-! ### Pull requests -/

lemma Inv.eraseIdx (h : c.Inv) {i : ℕ} {request : PullRequest}
    (hi : c.pullRequestQueue[i]? = some request)
    (hdropped : c.isDropped request.processQueue = true) :
    Inv { c with pullRequestQueue := c.pullRequestQueue.eraseIdx i } where
  table := h.table
  requests := fun r hmem => h.requests r (List.mem_of_mem_eraseIdx hmem)
  apart := h.apart
  owned := fun r hmem hlive => h.owned r (List.mem_of_mem_eraseIdx hmem) hlive
  served := fun mq pq hp hlive => by
    rw [← h.served mq pq hp hlive]
    refine countP_eraseIdx_of_neg hi (decide_eq_false fun hl => ?_)
    exact Bool.false_ne_true (hl.2.symm.trans hdropped)

lemma Inv.set (h : c.Inv) {i : ℕ} {request : PullRequest}
    (hi : c.pullRequestQueue[i]? = some request) (nextOffset : ℤ) :
    Inv { c with pullRequestQueue := c.pullRequestQueue.set i { request with nextOffset } } := by
  have hmem : request ∈ c.pullRequestQueue := List.mem_of_getElem? hi
  refine ⟨h.table, fun r hr => ?_, h.apart, fun r hr hlive => ?_, fun mq pq hp hlive => ?_⟩
  · rcases List.mem_or_eq_of_mem_set hr with hr | rfl
    · exact h.requests r hr
    · exact h.requests request hmem
  · rcases List.mem_or_eq_of_mem_set hr with hr | rfl
    · exact h.owned r hr hlive
    · exact h.owned request hmem hlive
  · rw [← h.served mq pq hp hlive]
    exact countP_set_of_eq hi rfl

lemma Inv.pullMessage (h : c.Inv) (i : ℕ) (nextBeginOffset : ℤ) :
    (c.pullMessage i nextBeginOffset).Inv := by
  rw [Consumer.pullMessage]
  split
  · exact h
  · rename_i request hi
    split_ifs with hdropped
    · exact h.eraseIdx hi hdropped
    · exact h.set hi nextBeginOffset

lemma Inv.offsetIllegal (h : c.Inv) (i : ℕ) : (c.offsetIllegal i).Inv := by
  rw [Consumer.offsetIllegal]
  split
  · exact h
  · rename_i request hi
    have hdrop := h.setDropped request.processQueue
    refine hdrop.eraseIdx (i := i) hi ?_
    rw [isDropped_setDropped, decide_eq_true rfl, Bool.true_or]

lemma Inv.removeProcessQueue (h : c.Inv) (mq : MessageQueue) : (c.removeProcessQueue mq).Inv := by
  rw [Consumer.removeProcessQueue]
  split
  · exact h
  · rename_i prev hlookup
    exact h.remove hlookup

lemma Inv.truncateMessageQueueNotMyTopic (h : c.Inv) (subscriptionInner : Text → Bool) :
    (c.truncateMessageQueueNotMyTopic subscriptionInner).Inv := by
  rw [Consumer.truncateMessageQueueNotMyTopic]
  generalize c.processQueueTable.keys = keys
  induction keys generalizing c with
  | nil => exact h
  | cons mq keys ih =>
    refine ih ?_
    rw [truncateTurn]
    split_ifs
    · exact h
    · split
      · exact h
      · rename_i pq hlookup
        exact h.remove hlookup

/-! ### A round -/

section Round

variable {r : Round}

/-- Whether the removal of a queue succeeds; the lock is all that it needs. -/
def Removes (c : Consumer) (r : Round) (mq : MessageQueue) : Prop :=
  c.removeUnnecessaryMessageQueue (r.tryLock mq) = true

/-- What the turns of the first loop for some queues have done: those that leave are dropped, and
taken out of the table where that succeeds. -/
structure Removed (r : Round) (keys : List MessageQueue) (c c' : Consumer) : Prop where
  removes : ∀ mq, Removes c' r mq ↔ Removes c r mq
  table : ∀ mq x, c'.processQueueTable.lookup mq = some x ↔
    c.processQueueTable.lookup mq = some x ∧ ¬(mq ∈ keys ∧ Leaves r mq ∧ Removes c r mq)
  dropped : ∀ x, c'.isDropped x = true ↔ c.isDropped x = true ∨
    ∃ mq ∈ keys, c.processQueueTable.lookup mq = some x ∧ Leaves r mq

lemma removed_nil (r : Round) (c : Consumer) : Removed r [] c c where
  removes := fun _ => Iff.rfl
  table := fun _ _ => (and_iff_left fun h => List.not_mem_nil h.1).symm
  dropped := fun _ => (or_iff_left fun ⟨_, h, _⟩ => List.not_mem_nil h).symm

lemma removed_of_stays {t : Consumer} {mq : MessageQueue}
    (h : Leaves r mq → t.processQueueTable.lookup mq = none) : Removed r [mq] t t where
  removes := fun _ => Iff.rfl
  table := fun mq' x => by
    refine (and_iff_left_of_imp fun hx hcond => ?_).symm
    obtain ⟨hmq, hleaves, -⟩ := hcond
    obtain rfl := List.mem_singleton.mp hmq
    rw [h hleaves] at hx
    cases hx
  dropped := fun x => by
    refine (or_iff_left ?_).symm
    rintro ⟨mq', hmq, hx, hleaves⟩
    obtain rfl := List.mem_singleton.mp hmq
    rw [h hleaves] at hx
    cases hx

lemma removeTurn_removed (r : Round) (t : Consumer × Bool) (mq : MessageQueue) :
    Removed r [mq] t.1 (removeTurn r t mq).1 := by
  rw [removeTurn]
  cases hlookup : t.1.processQueueTable.lookup mq with
  | none => exact removed_of_stays fun _ => hlookup
  | some pq =>
    dsimp only
    by_cases hleaves : Leaves r mq
    · have hdropped : ∀ x, (t.1.setDropped pq).isDropped x = true ↔ t.1.isDropped x = true ∨
          ∃ mq' ∈ [mq], t.1.processQueueTable.lookup mq' = some x ∧ Leaves r mq' := by
        intro x
        simp only [List.mem_singleton, exists_eq_left, hlookup, and_iff_left hleaves,
          Option.some.injEq]
        rw [isDropped_setDropped, Bool.or_eq_true, decide_eq_true_iff, or_comm, @eq_comm _ x pq]
      rw [if_pos hleaves]
      by_cases hremoves : (t.1.setDropped pq).removeUnnecessaryMessageQueue (r.tryLock mq) = true
      · rw [if_pos hremoves]
        refine ⟨fun _ => Iff.rfl, fun mq' x => ?_, hdropped⟩
        have hr : Removes t.1 r mq := hremoves
        dsimp only
        rw [lookup_erase_ite]
        by_cases heq : mq' = mq
        · subst heq
          simp [hleaves, hr]
        · rw [if_neg heq]
          refine (and_iff_left fun hcond => heq ?_).symm
          exact List.mem_singleton.mp hcond.1
      · rw [if_neg hremoves]
        refine ⟨fun _ => Iff.rfl, fun mq' x => ?_, hdropped⟩
        refine (and_iff_left ?_).symm
        rintro ⟨hmq, -, hr⟩
        obtain rfl := List.mem_singleton.mp hmq
        exact hremoves hr
    · rw [if_neg hleaves]
      exact removed_of_stays fun h => absurd h hleaves

/-- Turns for one queue after turns for others. -/
lemma Removed.cons {mq : MessageQueue} {keys : List MessageQueue} {c₁ c₂ : Consumer}
    (h₁ : Removed r [mq] c c₁) (h₂ : Removed r keys c₁ c₂) : Removed r (mq :: keys) c c₂ where
  removes := fun mq' => (h₂.removes mq').trans (h₁.removes mq')
  table := fun mq' x => by
    rw [h₂.table, h₁.table, h₁.removes, List.mem_singleton, List.mem_cons]
    tauto
  dropped := fun x => by
    rw [h₂.dropped, h₁.dropped]
    constructor
    · rintro ((hold | ⟨mq', hmem, hx⟩) | ⟨mq', hmem, hx, hleaves⟩)
      · exact .inl hold
      · exact .inr ⟨mq', List.mem_singleton.mp hmem ▸ List.mem_cons_self, hx⟩
      · exact .inr ⟨mq', List.mem_cons_of_mem mq hmem, ((h₁.table mq' x).mp hx).1, hleaves⟩
    · rintro (hold | ⟨mq', hmem, hx, hleaves⟩)
      · exact .inl (.inl hold)
      rcases List.mem_cons.mp hmem with rfl | hmem
      · exact .inl (.inr ⟨mq', List.mem_singleton_self mq', hx, hleaves⟩)
      · by_cases hgone : mq' ∈ [mq] ∧ Leaves r mq' ∧ Removes c r mq'
        · obtain rfl := List.mem_singleton.mp hgone.1
          exact .inl (.inr ⟨mq', List.mem_singleton_self mq', hx, hleaves⟩)
        · exact .inr ⟨mq', hmem, (h₁.table mq' x).mpr ⟨hx, hgone⟩, hleaves⟩

lemma removed_fold (r : Round) (keys : List MessageQueue) (t : Consumer × Bool) :
    Removed r keys t.1 (keys.foldl (removeTurn r) t).1 := by
  induction keys generalizing t with
  | nil => exact removed_nil r t.1
  | cons mq keys ih => exact (removeTurn_removed r t mq).cons (ih (removeTurn r t mq))

/-- The first loop: every queue that leaves is dropped, and taken out where that succeeds. -/
lemma removeLoop_removed (r : Round) (c : Consumer) :
    Removed r c.processQueueTable.keys c (c.removeLoop r).1 :=
  removed_fold r c.processQueueTable.keys (c, false)

lemma Inv.removeLoop (h : c.Inv) (r : Round) : (c.removeLoop r).1.Inv := by
  rw [Consumer.removeLoop]
  generalize c.processQueueTable.keys = keys
  suffices hs : ∀ t : Consumer × Bool, t.1.Inv → (keys.foldl (removeTurn r) t).1.Inv from
    hs (c, false) h
  induction keys with
  | nil => exact fun t ht => ht
  | cons mq keys ih =>
    refine fun t ht => ih _ ?_
    rw [removeTurn]
    split
    · exact ht
    · rename_i pq hlookup
      dsimp only
      split_ifs
      · exact ht.remove hlookup
      · exact ht.setDropped pq
      · exact ht

/-- A turn of the second loop, with its pull request handed on at once. -/
def addOne (r : Round) (c : Consumer) (mq : MessageQueue) : Consumer :=
  if mq ∈ c.processQueueTable then c
  else if 0 ≤ r.computePullFromWhere mq then c.add mq (r.computePullFromWhere mq)
  else c

/-- The pull requests may be handed on one by one. -/
lemma dispatch_fold (r : Round) (mqs : List MessageQueue)
    (t : (Consumer × Bool) × List PullRequest) :
    (mqs.foldl (addTurn r) t).1.1.dispatchPullRequest (mqs.foldl (addTurn r) t).2 =
      mqs.foldl (addOne r) (t.1.1.dispatchPullRequest t.2) := by
  induction mqs generalizing t with
  | nil => rfl
  | cons mq mqs ih =>
    rw [List.foldl_cons, ih, List.foldl_cons]
    congr 1
    have hmem : mq ∈ (t.1.1.dispatchPullRequest t.2).processQueueTable ↔
        mq ∈ t.1.1.processQueueTable := Iff.rfl
    simp only [addTurn, addOne, hmem]
    split_ifs
    · rfl
    · simp only [dispatchPullRequest, add, List.append_assoc]
    · rfl

lemma update_eq (r : Round) (c : Consumer) : (c.updateProcessQueueTableInRebalance r).1 =
    r.mqSet.foldl (addOne r) (c.removeLoop r).1 := by
  rw [updateProcessQueueTableInRebalance]
  dsimp only
  rw [dispatch_fold, dispatchPullRequest, List.append_nil]

/-- What the second loop has done: the queues that lack a process queue have got one. -/
structure Added (r : Round) (mqs : List MessageQueue) (c c' : Consumer) : Prop where
  length : c.processQueues.length ≤ c'.processQueues.length
  kept : ∀ mq x, c.processQueueTable.lookup mq = some x → c'.processQueueTable.lookup mq = some x
  dropped : ∀ x < c.processQueues.length, c'.isDropped x = c.isDropped x
  added : ∀ mq ∈ mqs, 0 ≤ r.computePullFromWhere mq → ∃ x, c'.processQueueTable.lookup mq = some x
  new : ∀ mq x, c'.processQueueTable.lookup mq = some x →
    c.processQueueTable.lookup mq = some x ∨ mq ∈ mqs ∧ c'.isDropped x = false

lemma added_fold (h : c.Inv) (r : Round) (mqs : List MessageQueue) :
    (mqs.foldl (addOne r) c).Inv ∧ Added r mqs c (mqs.foldl (addOne r) c) := by
  induction mqs generalizing c with
  | nil =>
    exact ⟨h, le_rfl, fun _ _ hx => hx, fun _ _ => rfl, fun _ hmem => absurd hmem List.not_mem_nil,
      fun _ _ hx => .inl hx⟩
  | cons mq mqs ih =>
    rw [List.foldl_cons]
    by_cases hmem : mq ∈ c.processQueueTable
    · rw [addOne, if_pos hmem]
      obtain ⟨hinv, ha⟩ := ih h
      refine ⟨hinv, ha.length, ha.kept, ha.dropped, fun mq' hmq' hpull => ?_, fun mq' x hx => ?_⟩
      · rcases List.mem_cons.mp hmq' with rfl | hmq'
        · obtain ⟨x, hx⟩ := mem_iff_lookup.mp hmem
          exact ⟨x, ha.kept mq' x hx⟩
        · exact ha.added mq' hmq' hpull
      · exact (ha.new mq' x hx).imp_right fun h => ⟨List.mem_cons_of_mem mq h.1, h.2⟩
    · by_cases hpull : 0 ≤ r.computePullFromWhere mq
      · rw [addOne, if_neg hmem, if_pos hpull]
        have hnone : c.processQueueTable.lookup mq = none := AList.lookup_eq_none.mpr hmem
        obtain ⟨hinv, ha⟩ := ih (h.add hnone (r.computePullFromWhere mq))
        have hlength : (c.add mq (r.computePullFromWhere mq)).processQueues.length =
            c.processQueues.length + 1 := List.length_append
        have hself : (c.add mq (r.computePullFromWhere mq)).processQueueTable.lookup mq =
            some c.processQueues.length := AList.lookup_insert _
        have hother : ∀ mq', mq' ≠ mq →
            (c.add mq (r.computePullFromWhere mq)).processQueueTable.lookup mq' =
              c.processQueueTable.lookup mq' := fun mq' hne => AList.lookup_insert_ne hne
        refine ⟨hinv, by have := ha.length; omega, fun mq' x hx => ?_, fun x hx => ?_,
          fun mq' hmq' hpull' => ?_, fun mq' x hx => ?_⟩
        · refine ha.kept mq' x ?_
          rw [hother mq', hx]
          rintro rfl
          rw [hnone] at hx
          cases hx
        · rw [ha.dropped x (by omega), isDropped_add_of_lt hx]
        · rcases List.mem_cons.mp hmq' with rfl | hmq'
          · exact ⟨_, ha.kept mq' _ hself⟩
          · exact ha.added mq' hmq' hpull'
        · rcases ha.new mq' x hx with hold | hnew
          · by_cases heq : mq' = mq
            · subst heq
              obtain rfl := Option.some.inj (hself.symm.trans hold)
              refine .inr ⟨List.mem_cons_self, ?_⟩
              rw [ha.dropped _ (by omega), isDropped_add_self]
            · exact .inl ((hother mq' heq).symm.trans hold)
          · exact .inr ⟨List.mem_cons_of_mem mq hnew.1, hnew.2⟩
      · rw [addOne, if_neg hmem, if_neg hpull]
        obtain ⟨hinv, ha⟩ := ih h
        refine ⟨hinv, ha.length, ha.kept, ha.dropped, fun mq' hmq' hpull' => ?_,
          fun mq' x hx => ?_⟩
        · rcases List.mem_cons.mp hmq' with rfl | hmq'
          · exact absurd hpull' hpull
          · exact ha.added mq' hmq' hpull'
        · exact (ha.new mq' x hx).imp_right fun h => ⟨List.mem_cons_of_mem mq h.1, h.2⟩

theorem Inv.update (h : c.Inv) (r : Round) : (c.updateProcessQueueTableInRebalance r).1.Inv := by
  rw [update_eq]
  exact (added_fold (h.removeLoop r) r r.mqSet).1

/-- A queue of the table that leaves is dropped by the first loop, one that stays is as it was. -/
lemma isDropped_removeLoop (h : c.Inv) {mq : MessageQueue} {pq : ℕ}
    (hlookup : c.processQueueTable.lookup mq = some pq) :
    (c.removeLoop r).1.isDropped pq = true ↔ c.isDropped pq = true ∨ Leaves r mq := by
  rw [(removeLoop_removed r c).dropped]
  refine or_congr_right ⟨?_, fun hleaves => ⟨mq, ?_, hlookup, hleaves⟩⟩
  · rintro ⟨mq', -, hlookup', hleaves⟩
    rwa [h.apart mq mq' pq hlookup hlookup']
  · exact AList.mem_keys.mpr (mem_iff_lookup.mpr ⟨pq, hlookup⟩)

/-- A round does nothing to a queue that stays. -/
lemma update_of_stays (h : c.Inv) {mq : MessageQueue} {pq : ℕ}
    (hlookup : c.processQueueTable.lookup mq = some pq) (hstays : ¬Leaves r mq) :
    (c.updateProcessQueueTableInRebalance r).1.processQueueTable.lookup mq = some pq ∧
      (c.updateProcessQueueTableInRebalance r).1.isDropped pq = c.isDropped pq := by
  have hinv := h.removeLoop r
  have hloop : (c.removeLoop r).1.processQueueTable.lookup mq = some pq :=
    ((removeLoop_removed r c).table mq pq).mpr ⟨hlookup, fun hcond => hstays hcond.2.1⟩
  have hdropped : (c.removeLoop r).1.isDropped pq = c.isDropped pq := by
    rw [Bool.eq_iff_iff, isDropped_removeLoop h hlookup, or_iff_left hstays]
  have hadded := (added_fold hinv r r.mqSet).2
  rw [update_eq]
  exact ⟨hadded.kept mq pq hloop, (hadded.dropped pq (hinv.table mq pq hloop)).trans hdropped⟩

/-- A queue that is not there stays away from rounds that it is not allocated in. -/
lemma update_of_absent (h : c.Inv) {mq : MessageQueue}
    (hlookup : c.processQueueTable.lookup mq = none) (hmq : mq ∉ r.mqSet) :
    (c.updateProcessQueueTableInRebalance r).1.processQueueTable.lookup mq = none := by
  rw [update_eq, Option.eq_none_iff_forall_ne_some]
  intro x hx
  rcases (added_fold (h.removeLoop r) r r.mqSet).2.new mq x hx with hold | hnew
  · rw [((removeLoop_removed r c).table mq x).mp hold |>.1] at hlookup
    cases hlookup
  · exact hmq hnew.1

/-- A queue that is not there is added when it is allocated. -/
lemma update_of_added (h : c.Inv) {mq : MessageQueue}
    (hlookup : c.processQueueTable.lookup mq = none) (hmq : mq ∈ r.mqSet)
    (hpull : 0 ≤ r.computePullFromWhere mq) :
    ∃ x, (c.updateProcessQueueTableInRebalance r).1.processQueueTable.lookup mq = some x ∧
      (c.updateProcessQueueTableInRebalance r).1.isDropped x = false := by
  have hadded := (added_fold (h.removeLoop r) r r.mqSet).2
  rw [update_eq]
  obtain ⟨x, hx⟩ := hadded.added mq hmq hpull
  refine ⟨x, hx, ?_⟩
  rcases hadded.new mq x hx with hold | hnew
  · rw [((removeLoop_removed r c).table mq x).mp hold |>.1] at hlookup
    cases hlookup
  · exact hnew.2

end Round

/-! ### Rounds for all topics, and a reset -/

lemma Inv.doRebalance (h : c.Inv) (rounds : List Round) (subscriptionInner : Text → Bool) :
    (c.doRebalance rounds subscriptionInner).Inv := by
  refine Inv.truncateMessageQueueNotMyTopic ?_ subscriptionInner
  induction rounds generalizing c with
  | nil => exact h
  | cons r rounds ih => exact ih (h.update r)

@[simp] lemma isDropped_clear (pq x : ℕ) : (c.clear pq).isDropped x = c.isDropped x := by
  simp only [isDropped, clear, List.getElem?_modify]
  by_cases hx : pq = x
  · subst hx
    cases c.processQueues[pq]? <;> simp [ProcessQueue.clear]
  · cases c.processQueues[x]? <;> simp [hx]

lemma Inv.clear (h : c.Inv) (pq : ℕ) : (c.clear pq).Inv := by
  have hlength : (c.clear pq).processQueues.length = c.processQueues.length :=
    List.length_modify ..
  refine ⟨fun mq p hp => ?_, fun request hmem => ?_, h.apart, fun request hmem hlive => ?_,
    fun mq p hp hlive => ?_⟩
  · rw [hlength]
    exact h.table mq p hp
  · rw [hlength]
    exact h.requests request hmem
  · rw [isDropped_clear] at hlive
    exact h.owned request hmem hlive
  · rw [isDropped_clear] at hlive
    rw [← h.served mq p hp hlive]
    refine countP_live fun request _ => ?_
    rw [Live, Live, isDropped_clear]

/-- What the loop has done: the queues of the topic are dropped. -/
lemma reset_fold (h : c.Inv) (topic : Text) (keys : List MessageQueue) :
    (keys.foldl (resetTurn topic) c).Inv ∧
      (keys.foldl (resetTurn topic) c).processQueueTable = c.processQueueTable ∧
      ∀ x, (keys.foldl (resetTurn topic) c).isDropped x = true ↔ c.isDropped x = true ∨
        ∃ mq ∈ keys, mq.topic = topic ∧ c.processQueueTable.lookup mq = some x := by
  induction keys generalizing c with
  | nil => exact ⟨h, rfl, fun x => (or_iff_left fun ⟨_, hmem, _⟩ => List.not_mem_nil hmem).symm⟩
  | cons mq keys ih =>
    rw [List.foldl_cons]
    have hturn : (resetTurn topic c mq).Inv ∧
        (resetTurn topic c mq).processQueueTable = c.processQueueTable ∧
        ∀ x, (resetTurn topic c mq).isDropped x = true ↔ c.isDropped x = true ∨
          mq.topic = topic ∧ c.processQueueTable.lookup mq = some x := by
      rw [resetTurn]
      by_cases htopic : topic = mq.topic
      · rw [if_pos htopic]
        cases hlookup : c.processQueueTable.lookup mq with
        | none => exact ⟨h, rfl, fun x => (or_iff_left fun hx => by cases hx.2).symm⟩
        | some pq =>
          refine ⟨(h.setDropped pq).clear pq, rfl, fun x => ?_⟩
          rw [isDropped_clear, isDropped_setDropped, Bool.or_eq_true, decide_eq_true_iff, or_comm,
            and_iff_right htopic.symm, Option.some.injEq, @eq_comm _ x pq]
      · rw [if_neg htopic]
        exact ⟨h, rfl, fun x => (or_iff_left fun hx => htopic hx.1.symm).symm⟩
    obtain ⟨hinv, htable, hdropped⟩ := hturn
    obtain ⟨hinv', htable', hdropped'⟩ := ih hinv
    refine ⟨hinv', htable'.trans htable, fun x => ?_⟩
    rw [hdropped', hdropped, htable, List.exists_mem_cons_iff, or_assoc]

/-- The queues that were reset are taken out; they are dropped. -/
lemma erase_fold (h : c.Inv) (keys : List MessageQueue)
    (hdropped : ∀ mq ∈ keys, ∀ pq, c.processQueueTable.lookup mq = some pq →
      c.isDropped pq = true) :
    (keys.foldl (fun c mq =>
        { c with processQueueTable := c.processQueueTable.erase mq : Consumer }) c).Inv ∧
      (∀ x, (keys.foldl (fun c mq =>
        { c with processQueueTable := c.processQueueTable.erase mq : Consumer }) c).isDropped x =
          c.isDropped x) ∧
      ∀ mq, (keys.foldl (fun c mq =>
        { c with processQueueTable := c.processQueueTable.erase mq : Consumer })
          c).processQueueTable.lookup mq =
            if mq ∈ keys then none else c.processQueueTable.lookup mq := by
  induction keys generalizing c with
  | nil => exact ⟨h, fun _ => rfl, fun _ => rfl⟩
  | cons key keys ih =>
    have herase := h.erase (hdropped key List.mem_cons_self)
    obtain ⟨hinv, hsame, hlookup⟩ := ih herase fun mq hmem pq hp => by
      dsimp only at hp
      rw [lookup_erase_ite] at hp
      split_ifs at hp
      exact hdropped mq (List.mem_cons_of_mem key hmem) pq hp
    refine ⟨hinv, hsame, fun mq => ?_⟩
    rw [List.foldl_cons, hlookup]
    dsimp only
    rw [lookup_erase_ite]
    by_cases hmem : mq ∈ keys
    · rw [if_pos hmem, if_pos (List.mem_cons_of_mem key hmem)]
    · rw [if_neg hmem]
      simp only [List.mem_cons, hmem, or_false]

/-- What a reset of queues of one topic leaves for the rebalance: the queues of the topic are
dropped, those of the offset table are not in the table any more. -/
lemma reset_spec (h : c.Inv) {topic : Text} {offsetTable : Table MessageQueue ℤ}
    (htopic : ∀ mq ∈ offsetTable, mq.topic = topic) :
    ∃ c' : Consumer, c'.Inv ∧
      (∀ rounds subscriptionInner, c.resetOffset topic offsetTable rounds subscriptionInner =
        c'.doRebalance rounds subscriptionInner) ∧
      (∀ mq, c'.processQueueTable.lookup mq =
        if mq ∈ offsetTable then none else c.processQueueTable.lookup mq) ∧
      ∀ mq pq, c.processQueueTable.lookup mq = some pq →
        (c'.isDropped pq = true ↔ c.isDropped pq = true ∨ mq.topic = topic) := by
  obtain ⟨hinv, htable, hdropped⟩ := reset_fold h topic c.processQueueTable.keys
  have hall : ∀ mq pq, c.processQueueTable.lookup mq = some pq →
      ((c.processQueueTable.keys.foldl (resetTurn topic) c).isDropped pq = true ↔
        c.isDropped pq = true ∨ mq.topic = topic) := by
    intro mq pq hlookup
    rw [hdropped]
    refine or_congr_right ⟨?_, fun hmq => ⟨mq, ?_, hmq, hlookup⟩⟩
    · rintro ⟨mq', -, hmq', hlookup'⟩
      rwa [h.apart mq mq' pq hlookup hlookup']
    · exact AList.mem_keys.mpr (mem_iff_lookup.mpr ⟨pq, hlookup⟩)
  obtain ⟨hinv', hsame, hlookup⟩ := erase_fold hinv offsetTable.keys fun mq hmem pq hp =>
    (hall mq pq (htable ▸ hp)).mpr (.inr (htopic mq (AList.mem_keys.mp hmem)))
  refine ⟨_, hinv', fun _ _ => rfl, fun mq => ?_, fun mq pq hp => ?_⟩
  · rw [hlookup, htable]
    simp only [AList.mem_keys]
  · rw [hsame]
    exact hall mq pq hp

lemma Inv.resetOffset (h : c.Inv) {topic : Text} {offsetTable : Table MessageQueue ℤ}
    (htopic : ∀ mq ∈ offsetTable, mq.topic = topic) (rounds : List Round)
    (subscriptionInner : Text → Bool) :
    (c.resetOffset topic offsetTable rounds subscriptionInner).Inv := by
  obtain ⟨c', hinv, heq, -⟩ := reset_spec h htopic
  rw [heq]
  exact hinv.doRebalance rounds subscriptionInner

end Consumer

end CloudMQ.ProcessQueueTable
