import CloudMQ.QueueRounds

/-!
A reset of offsets that one broker sends, and the queues that a push consumer pulls.

The broker sends offsets of its own queues. The consumer drops its queues of the topic, on every
broker, but takes only those it got an offset for out of its table, and the rebalance that follows
puts new ones in only for these.
-/

namespace CloudMQ.OffsetReset

open CloudMQ.Utf8 CloudMQ.Tables CloudMQ.Runs CloudMQ.TopicRoutes CloudMQ.ProcessQueueTable
open CloudMQ.ProcessQueueTable.Consumer CloudMQ.QueueRounds

/-- What `Broker2Client.resetOffset` looks up: its queues of a topic, and by queue the offset of the
group and the offset that belongs to the time. -/
structure ResetRequest where
  topic : Text
  brokerName : Text
  writeQueueNums : ℕ
  queryOffset : ℕ → ℤ
  getOffsetInQueueByTime : ℕ → ℤ
  isForce : Bool

def ResetRequest.mq (q : ResetRequest) (i : ℕ) : MessageQueue :=
  ⟨q.topic, q.brokerName, Int32.ofNat i⟩

/-- A turn of the loop over the queues; `none` is a group without an offset. -/
def ResetRequest.putOffset (q : ResetRequest) (offsetTable : Table MessageQueue ℤ) (i : ℕ) :
    Option (Table MessageQueue ℤ) :=
  let consumerOffset := q.queryOffset i
  if consumerOffset = -1 then none
  else
    let timeStampOffset := q.getOffsetInQueueByTime i
    some (offsetTable.insert (q.mq i)
      (if q.isForce ∨ timeStampOffset < consumerOffset then timeStampOffset else consumerOffset))

/-- The table that is sent to the consumers. -/
def ResetRequest.offsetTable (q : ResetRequest) : Option (Table MessageQueue ℤ) :=
  (List.range q.writeQueueNums).foldlM q.putOffset ∅

lemma mem_foldlM_putOffset {q : ResetRequest} {l : List ℕ} {t t' : Table MessageQueue ℤ}
    (h : l.foldlM q.putOffset t = some t') (mq : MessageQueue) :
    mq ∈ t' ↔ mq ∈ t ∨ ∃ i ∈ l, mq = q.mq i := by
  induction l generalizing t with
  | nil =>
    cases h
    simp
  | cons i l ih =>
    rw [List.foldlM_cons] at h
    obtain ⟨t₁, ht₁, h⟩ := Option.bind_eq_some_iff.mp h
    rw [ResetRequest.putOffset] at ht₁
    dsimp only at ht₁
    by_cases hgroup : q.queryOffset i = -1
    · rw [if_pos hgroup] at ht₁
      cases ht₁
    rw [if_neg hgroup] at ht₁
    obtain rfl := Option.some.inj ht₁
    rw [ih h, AList.mem_insert, List.exists_mem_cons_iff, ← or_assoc, @or_comm (mq ∈ t)]

/-- The table has the broker's queues of the topic. -/
lemma ResetRequest.mem_offsetTable {q : ResetRequest} {t : Table MessageQueue ℤ}
    (h : q.offsetTable = some t) (mq : MessageQueue) :
    mq ∈ t ↔ ∃ i < q.writeQueueNums, mq = q.mq i := by
  rw [mem_foldlM_putOffset h mq, or_iff_right (AList.notMem_empty mq)]
  simp only [List.mem_range]

/-! ### A rebalance that changes nothing -/

/-- The rebalance divides the queues as before: for the topics with a subscription, every queue
pulled in time, every place to start from found. Every allocated queue is pulled. -/
structure Unchanged (c : Consumer) (rounds : List Round) (subscriptionInner : Text → Bool) :
    Prop where
  topics : (rounds.map (·.topic)).Nodup
  subscribed : ∀ r ∈ rounds, subscriptionInner r.topic = true
  found : ∀ r ∈ rounds, ∀ mq ∈ r.mqSet, 0 ≤ r.computePullFromWhere mq
  inTime : ∀ r ∈ rounds, ∀ mq, r.isPullExpired mq = false
  pulled : ∀ r ∈ rounds, ∀ mq ∈ r.mqSet, c.Pulled mq

section

variable {c : Consumer} {rounds : List Round} {subscriptionInner : Text → Bool}

lemma rounds_of_stays (h : c.Inv) {mq : MessageQueue} {pq : ℕ}
    (hlookup : c.processQueueTable.lookup mq = some pq) (hstays : ∀ r ∈ rounds, ¬Leaves r mq) :
    let c' := rounds.foldl (fun c r => (c.updateProcessQueueTableInRebalance r).1) c
    c'.Inv ∧ c'.processQueueTable.lookup mq = some pq ∧ c'.isDropped pq = c.isDropped pq := by
  induction rounds generalizing c with
  | nil => exact ⟨h, hlookup, rfl⟩
  | cons r rounds ih =>
    obtain ⟨hlookup', hdropped⟩ := update_of_stays h hlookup (hstays r List.mem_cons_self)
    obtain ⟨hinv, hlast, hsame⟩ := ih (h.update r) hlookup' fun r' hr' =>
      hstays r' (List.mem_cons_of_mem r hr')
    exact ⟨hinv, hlast, hsame.trans hdropped⟩

lemma rounds_of_absent (h : c.Inv) {mq : MessageQueue}
    (hlookup : c.processQueueTable.lookup mq = none) (habsent : ∀ r ∈ rounds, mq ∉ r.mqSet) :
    let c' := rounds.foldl (fun c r => (c.updateProcessQueueTableInRebalance r).1) c
    c'.Inv ∧ c'.processQueueTable.lookup mq = none := by
  induction rounds generalizing c with
  | nil => exact ⟨h, hlookup⟩
  | cons r rounds ih =>
    exact ih (h.update r) (update_of_absent h hlookup (habsent r List.mem_cons_self))
      fun r' hr' => habsent r' (List.mem_cons_of_mem r hr')

lemma truncate_of_subscribed (h : c.Inv) {mq : MessageQueue} {pq : ℕ}
    (hlookup : c.processQueueTable.lookup mq = some pq)
    (hsubscribed : subscriptionInner mq.topic = true) :
    (c.truncateMessageQueueNotMyTopic subscriptionInner).processQueueTable.lookup mq = some pq ∧
      (c.truncateMessageQueueNotMyTopic subscriptionInner).isDropped pq = c.isDropped pq := by
  rw [truncateMessageQueueNotMyTopic]
  generalize c.processQueueTable.keys = keys
  induction keys generalizing c with
  | nil => exact ⟨hlookup, rfl⟩
  | cons mq' keys ih =>
    rw [List.foldl_cons, truncateTurn]
    split_ifs with hsub
    · exact ih h hlookup
    · have hne : mq ≠ mq' := by
        rintro rfl
        exact hsub hsubscribed
      split
      · exact ih h hlookup
      · rename_i pq' hlookup'
        have hpq : pq ≠ pq' := by
          rintro rfl
          exact hne (h.apart mq mq' pq hlookup hlookup')
        obtain ⟨hlast, hsame⟩ := ih (h.remove hlookup') ((AList.lookup_erase_ne hne).trans hlookup)
        refine ⟨hlast, hsame.trans ?_⟩
        change (c.setDropped pq').isDropped pq = c.isDropped pq
        rw [isDropped_setDropped, decide_eq_false hpq, Bool.false_or]

/-- An allocated queue that is in the table comes through a rebalance that changes nothing. -/
lemma doRebalance_of_stays (subscriptionInner : Text → Bool) (h : c.Inv) {mq : MessageQueue}
    {pq : ℕ} (hlookup : c.processQueueTable.lookup mq = some pq)
    (hstays : ∀ r ∈ rounds, ¬Leaves r mq) (hsubscribed : subscriptionInner mq.topic = true) :
    (c.doRebalance rounds subscriptionInner).processQueueTable.lookup mq = some pq ∧
      (c.doRebalance rounds subscriptionInner).isDropped pq = c.isDropped pq := by
  obtain ⟨hinv, hlookup', hdropped⟩ := rounds_of_stays h hlookup hstays
  obtain ⟨hlast, hsame⟩ := truncate_of_subscribed hinv hlookup' hsubscribed
  exact ⟨hlast, hsame.trans hdropped⟩

lemma Unchanged.stays {c₀ : Consumer} (hu : Unchanged c₀ rounds subscriptionInner) {r : Round}
    (hr : r ∈ rounds) {mq : MessageQueue} (hmq : mq ∈ r.mqSet) :
    ∀ r' ∈ rounds, ¬Leaves r' mq := by
  rintro r' hr' ⟨htopic, hleaves⟩
  have heq : r' = r := List.inj_on_of_nodup_map hu.topics hr' hr
    (htopic.symm.trans (r.topic_eq mq hmq))
  subst heq
  rcases hleaves with hleaves | hexpired
  · exact hleaves hmq
  · rw [hu.inTime r' hr'] at hexpired
    cases hexpired

/-- An allocated queue that is not in the table is put in by its round. -/
lemma doRebalance_of_absent {c₀ : Consumer} (h : c.Inv)
    (hu : Unchanged c₀ rounds subscriptionInner) {r : Round} (hr : r ∈ rounds) {mq : MessageQueue}
    (hmq : mq ∈ r.mqSet) (hlookup : c.processQueueTable.lookup mq = none) :
    (c.doRebalance rounds subscriptionInner).Pulled mq := by
  have hinv := h.doRebalance rounds subscriptionInner
  have hstays := hu.stays hr hmq
  have htopics := hu.topics
  have hfound := hu.found r hr mq hmq
  have hsubscribed : subscriptionInner mq.topic = true := by
    rw [r.topic_eq mq hmq]
    exact hu.subscribed r hr
  obtain ⟨before, rest, rfl⟩ := List.append_of_mem hr
  have habsent : ∀ r' ∈ before, mq ∉ r'.mqSet := by
    intro r' hr' hmq'
    rw [List.map_append, List.map_cons] at htopics
    refine List.disjoint_of_nodup_append htopics (List.mem_map_of_mem hr') ?_
    rw [← r'.topic_eq mq hmq', r.topic_eq mq hmq]
    exact List.mem_cons_self
  obtain ⟨hbefore, hnone⟩ := rounds_of_absent h hlookup habsent
  obtain ⟨pq, hadded, hlive⟩ := update_of_added hbefore hnone hmq hfound
  obtain ⟨hlast, hsame⟩ := doRebalance_of_stays subscriptionInner
    (hbefore.update r) hadded
    (fun r' hr' => hstays r' (List.mem_append_right before (List.mem_cons_of_mem r hr')))
    hsubscribed
  have heq : (before ++ r :: rest).foldl
      (fun c r => (c.updateProcessQueueTableInRebalance r).1) c =
        rest.foldl (fun c r => (c.updateProcessQueueTableInRebalance r).1)
          ((before.foldl (fun c r => (c.updateProcessQueueTableInRebalance r).1)
            c).updateProcessQueueTableInRebalance r).1 := by
    rw [List.foldl_append, List.foldl_cons]
  rw [doRebalance, heq] at hinv ⊢
  exact hinv.pulled hlast (hsame.trans hlive)

/-- **Resets and other queues.** After a reset every allocated queue is pulled again exactly when
those of the topic all belong to the broker that sent the offsets, and to the queues it writes. -/
theorem reset_pulled_iff (consumeOrderly clustering : Bool) (as : List Action) (s : State)
    (hrun : run step (newState consumeOrderly clustering) as = some s)
    (hu : Unchanged s.consumer rounds subscriptionInner) (q : ResetRequest)
    (offsetTable : Table MessageQueue ℤ) (hsent : q.offsetTable = some offsetTable) :
    (∀ r ∈ rounds, ∀ mq ∈ r.mqSet,
        (s.consumer.resetOffset q.topic offsetTable rounds subscriptionInner).Pulled mq) ↔
      ∀ r ∈ rounds, ∀ mq ∈ r.mqSet, mq.topic = q.topic →
        mq.brokerName = q.brokerName ∧ ∃ i < q.writeQueueNums, mq.queueId = Int32.ofNat i := by
  have hinv : s.consumer.Inv := @run_inductive _ _ step (fun s => s.consumer.Inv)
    (fun s a s' h hs => by cases hs; exact inv_apply h a) _ _ as
    (inv_new consumeOrderly clustering) hrun
  have htopic : ∀ mq ∈ offsetTable, mq.topic = q.topic := by
    intro mq hmem
    obtain ⟨i, -, rfl⟩ := (ResetRequest.mem_offsetTable hsent mq).mp hmem
    rfl
  have hmem : ∀ mq, mq.topic = q.topic → (mq ∈ offsetTable ↔
      mq.brokerName = q.brokerName ∧ ∃ i < q.writeQueueNums, mq.queueId = Int32.ofNat i) := by
    rintro ⟨topic, brokerName, queueId⟩ rfl
    rw [ResetRequest.mem_offsetTable hsent]
    simp only [ResetRequest.mq, MessageQueue.mk.injEq, true_and]
    constructor
    · rintro ⟨i, hi, rfl, rfl⟩
      exact ⟨rfl, i, hi, rfl⟩
    · rintro ⟨rfl, i, hi, rfl⟩
      exact ⟨i, hi, rfl, rfl⟩
  obtain ⟨c', hinv', hreset, hlookup, hdropped⟩ := reset_spec hinv htopic
  have hsubscribed : ∀ r ∈ rounds, ∀ mq ∈ r.mqSet, subscriptionInner mq.topic = true := by
    intro r hr mq hmq
    rw [r.topic_eq mq hmq]
    exact hu.subscribed r hr
  constructor
  · intro hpulled r hr mq hmq hmqtopic
    rw [← hmem mq hmqtopic]
    by_contra hnot
    -- The queue stays in the table with the process queue that the reset dropped.
    obtain ⟨pq, hbefore, -⟩ := hu.pulled r hr mq hmq
    have hkept : c'.processQueueTable.lookup mq = some pq := by rw [hlookup, if_neg hnot, hbefore]
    obtain ⟨hlast, hsame⟩ := doRebalance_of_stays subscriptionInner hinv' hkept (hu.stays hr hmq)
      (hsubscribed r hr mq hmq)
    obtain ⟨pq', hlast', hlive, -⟩ := hreset rounds subscriptionInner ▸ hpulled r hr mq hmq
    obtain rfl := Option.some.inj (hlast.symm.trans hlast')
    rw [hsame, (hdropped mq pq hbefore).mpr (.inr hmqtopic)] at hlive
    cases hlive
  · intro hcond r hr mq hmq
    rw [hreset]
    obtain ⟨pq, hbefore, hlive, -⟩ := hu.pulled r hr mq hmq
    by_cases hmqtopic : mq.topic = q.topic
    · refine doRebalance_of_absent hinv' hu hr hmq ?_
      rw [hlookup, if_pos ((hmem mq hmqtopic).mpr (hcond r hr mq hmq hmqtopic))]
    · have hkept : c'.processQueueTable.lookup mq = some pq := by
        rw [hlookup, if_neg fun hin => hmqtopic (htopic mq hin), hbefore]
      obtain ⟨hlast, hsame⟩ := doRebalance_of_stays subscriptionInner hinv' hkept (hu.stays hr hmq)
        (hsubscribed r hr mq hmq)
      refine (hinv'.doRebalance rounds subscriptionInner).pulled hlast (hsame.trans ?_)
      rw [Bool.eq_false_iff, Ne, hdropped mq pq hbefore, not_or]
      exact ⟨Bool.eq_false_iff.mp hlive, hmqtopic⟩

end

/-! ### Two brokers -/

def queueA : MessageQueue := ⟨['t'], ['a'], 0⟩

def queueB : MessageQueue := ⟨['t'], ['b'], 0⟩

lemma topic_queues : ∀ mq ∈ [queueA, queueB], mq.topic = ['t'] := by decide

/-- The queues of the topic on both brokers are allocated. -/
def twoBrokers : Round where
  topic := ['t']
  mqSet := [queueA, queueB]
  topic_eq := topic_queues
  tryLock := fun _ => true
  isPullExpired := fun _ => false
  computePullFromWhere := fun _ => 0

/-- A broker that resets its queue of the topic. -/
def resetBy (brokerName : Text) : ResetRequest where
  topic := ['t']
  brokerName := brokerName
  writeQueueNums := 1
  queryOffset := fun _ => 5
  getOffsetInQueueByTime := fun _ => 2
  isForce := true

/-- The consumer after a round. -/
def afterRound (r : Round) : State :=
  ⟨Action.apply { consumeOrderly := false, clustering := true }
    (.updateProcessQueueTableInRebalance r), some r⟩

lemma pulled_given : (afterRound given).consumer.Pulled queueOfT :=
  ⟨0, by decide, by decide, by decide, by decide⟩

lemma unchanged_given : Unchanged (afterRound given).consumer [given] fun _ => true where
  topics := by decide
  subscribed := fun _ _ => rfl
  found := fun r hr mq _ => by
    obtain rfl := List.mem_singleton.mp hr
    exact le_refl (0 : ℤ)
  inTime := fun r hr mq => by
    obtain rfl := List.mem_singleton.mp hr
    rfl
  pulled := fun r hr mq hmq => by
    obtain rfl := List.mem_singleton.mp hr
    obtain rfl := List.mem_singleton.mp hmq
    exact pulled_given

theorem reset_pulled_given :
    (∀ r ∈ [given], ∀ mq ∈ r.mqSet, ((afterRound given).consumer.resetOffset ['t']
        (((∅ : Table MessageQueue ℤ)).insert queueOfT 2) [given] fun _ => true).Pulled mq) ↔
      ∀ r ∈ [given], ∀ mq ∈ r.mqSet, mq.topic = ['t'] →
        mq.brokerName = ['b'] ∧ ∃ i < 1, mq.queueId = Int32.ofNat i :=
  reset_pulled_iff false true [.updateProcessQueueTableInRebalance given] (afterRound given) rfl
    unchanged_given (resetBy ['b']) _ rfl

lemma unchanged_twoBrokers :
    Unchanged (afterRound twoBrokers).consumer [twoBrokers] fun _ => true where
  topics := by decide
  subscribed := fun _ _ => rfl
  found := fun r hr mq _ => by
    obtain rfl := List.mem_singleton.mp hr
    exact le_refl (0 : ℤ)
  inTime := fun r hr mq => by
    obtain rfl := List.mem_singleton.mp hr
    rfl
  pulled := fun r hr mq hmq => by
    obtain rfl := List.mem_singleton.mp hr
    rcases List.mem_cons.mp hmq with rfl | hmq
    · exact ⟨0, by decide, by decide, by decide, by decide⟩
    · obtain rfl := List.mem_singleton.mp hmq
      exact ⟨1, by decide, by decide, by decide, by decide⟩

theorem reset_stops_others : ¬∀ (rounds : List Round) (subscriptionInner : Text → Bool)
    (as : List Action) (s : State), run step (newState false true) as = some s →
    Unchanged s.consumer rounds subscriptionInner → ∀ (q : ResetRequest)
      (offsetTable : Table MessageQueue ℤ), q.offsetTable = some offsetTable →
    ∀ r ∈ rounds, ∀ mq ∈ r.mqSet,
      (s.consumer.resetOffset q.topic offsetTable rounds subscriptionInner).Pulled mq := by
  intro h
  obtain ⟨pq, hlookup, hlive, -⟩ := h [twoBrokers] (fun _ => true)
    [.updateProcessQueueTableInRebalance twoBrokers] (afterRound twoBrokers) rfl
    unchanged_twoBrokers (resetBy ['a']) ((∅ : Table MessageQueue ℤ).insert queueA 2) rfl
    twoBrokers (List.mem_singleton_self twoBrokers) queueB (by decide)
  have hpq : ((afterRound twoBrokers).consumer.resetOffset ['t']
      ((∅ : Table MessageQueue ℤ).insert queueA 2) [twoBrokers]
        fun _ => true).processQueueTable.lookup queueB = some 1 := by
    decide
  obtain rfl := Option.some.inj (hpq.symm.trans hlookup)
  have hgone : ((afterRound twoBrokers).consumer.resetOffset ['t']
      ((∅ : Table MessageQueue ℤ).insert queueA 2) [twoBrokers]
        fun _ => true).isDropped 1 = true := by
    decide
  exact Bool.false_ne_true (hlive.symm.trans hgone)

end CloudMQ.OffsetReset
