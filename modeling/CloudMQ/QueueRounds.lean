import CloudMQ.ProcessQueueTable
import CloudMQ.Runs

/-!
The queues that are allocated to a push consumer, and the queues that it pulls.

A process queue whose removal fails stays in the table, dropped. When its queue is allocated again
the table has it, so it gets no new one, and its pull request has been given up or will be.
-/

namespace CloudMQ.QueueRounds

open CloudMQ.Utf8 CloudMQ.Tables CloudMQ.Runs CloudMQ.TopicRoutes CloudMQ.ProcessQueueTable
open CloudMQ.ProcessQueueTable.Consumer

/-- Offsets for queues of one topic. -/
structure ResetOffsetBody where
  topic : Text
  offsetTable : Table MessageQueue ℤ
  topic_eq : ∀ mq ∈ offsetTable, mq.topic = topic

/-- The consumer, and the round that has just ended. -/
structure State where
  consumer : Consumer
  round : Option Round

def newState (consumeOrderly clustering : Bool) : State := ⟨{ consumeOrderly, clustering }, none⟩

inductive Action
  | updateProcessQueueTableInRebalance (r : Round)
  | truncateMessageQueueNotMyTopic (subscriptionInner : Text → Bool)
  | pullMessage (i : ℕ) (nextBeginOffset : ℤ)
  | offsetIllegal (i : ℕ)
  | removeProcessQueue (mq : MessageQueue)
  | resetOffset (body : ResetOffsetBody) (rounds : List Round) (subscriptionInner : Text → Bool)

def Action.apply (c : Consumer) : Action → Consumer
  | .updateProcessQueueTableInRebalance r => (c.updateProcessQueueTableInRebalance r).1
  | .truncateMessageQueueNotMyTopic subscriptionInner =>
    c.truncateMessageQueueNotMyTopic subscriptionInner
  | .pullMessage i nextBeginOffset => c.pullMessage i nextBeginOffset
  | .offsetIllegal i => c.offsetIllegal i
  | .removeProcessQueue mq => c.removeProcessQueue mq
  | .resetOffset body rounds subscriptionInner =>
    c.resetOffset body.topic body.offsetTable rounds subscriptionInner

def Action.round : Action → Option Round
  | .updateProcessQueueTableInRebalance r => some r
  | _ => none

def step (s : State) (a : Action) : Option State := some ⟨a.apply s.consumer, a.round⟩

/-- After a round every allocated queue is pulled, unless the place to start from could not be
found, and what the consumer has of the topic beside them is dropped. -/
def Good (c : Consumer) (r : Round) : Prop :=
  (∀ mq ∈ r.mqSet, mq ∈ c.processQueueTable ∨ 0 ≤ r.computePullFromWhere mq → c.Pulled mq) ∧
    ∀ mq pq, c.processQueueTable.lookup mq = some pq → mq.topic = r.topic → mq ∉ r.mqSet →
      c.isDropped pq = true

def Sound (s : State) : Prop := ∀ r, s.round = some r → Good s.consumer r

/-- No allocated queue is in the table with a process queue that was dropped before, or is dropped
now for not being pulled and cannot be removed. -/
def Renewable (s : State) : Action → Prop
  | .updateProcessQueueTableInRebalance r =>
    ∀ mq ∈ r.mqSet, ∀ pq, s.consumer.processQueueTable.lookup mq = some pq →
      if r.isPullExpired mq then s.consumer.Removes r mq else s.consumer.isDropped pq = false
  | _ => True

section

variable {c : Consumer} {r : Round}

/-- A process queue that is dropped in the table after the first loop stays there. -/
lemma not_pulled_of_dropped (h : c.Inv) {mq : MessageQueue} {pq : ℕ}
    (hlookup : (c.removeLoop r).1.processQueueTable.lookup mq = some pq)
    (hdropped : (c.removeLoop r).1.isDropped pq = true) :
    mq ∈ (c.updateProcessQueueTableInRebalance r).1.processQueueTable ∧
      ¬(c.updateProcessQueueTableInRebalance r).1.Pulled mq := by
  have hinv := h.removeLoop r
  have hadded := (added_fold hinv r r.mqSet).2
  rw [update_eq]
  have hkept := hadded.kept mq pq hlookup
  refine ⟨mem_iff_lookup.mpr ⟨pq, hkept⟩, ?_⟩
  rintro ⟨pq', hlookup', hlive, -⟩
  obtain rfl := Option.some.inj (hkept.symm.trans hlookup')
  rw [hadded.dropped pq (hinv.table mq pq hlookup), hdropped] at hlive
  cases hlive

/-- **One round.** It leaves every allocated queue pulled exactly when it can renew those that are
dropped. -/
theorem good_iff (h : c.Inv) : Good (c.updateProcessQueueTableInRebalance r).1 r ↔
    ∀ mq ∈ r.mqSet, ∀ pq, c.processQueueTable.lookup mq = some pq →
      if r.isPullExpired mq then c.Removes r mq else c.isDropped pq = false := by
  have hinv := h.removeLoop r
  have hloop := removeLoop_removed r c
  constructor
  · intro hgood mq hmq pq hlookup
    by_contra hcond
    -- The queue stays in the table, and its process queue is dropped.
    have hdropped : (c.removeLoop r).1.isDropped pq = true := by
      rw [isDropped_removeLoop h hlookup]
      split_ifs at hcond with hexpired
      · exact .inr ⟨r.topic_eq mq hmq, .inr hexpired⟩
      · exact .inl (eq_true_of_ne_false hcond)
    have hstays : (c.removeLoop r).1.processQueueTable.lookup mq = some pq := by
      refine (hloop.table mq pq).mpr ⟨hlookup, ?_⟩
      rintro ⟨-, ⟨-, hleaves⟩, hremoves⟩
      rcases hleaves with hleaves | hexpired
      · exact hleaves hmq
      · exact hcond (by rwa [if_pos hexpired])
    obtain ⟨hmem, hnot⟩ := not_pulled_of_dropped h hstays hdropped
    exact hnot (hgood.1 mq hmq (.inl hmem))
  · intro hcond
    have hadded := (added_fold hinv r r.mqSet).2
    refine ⟨fun mq hmq hthere => ?_, fun mq pq hlookup htopic hmq => ?_⟩
    · have hlookup : ∃ pq,
          (c.updateProcessQueueTableInRebalance r).1.processQueueTable.lookup mq = some pq := by
        rcases hthere with hmem | hpull
        · exact mem_iff_lookup.mp hmem
        · rw [update_eq]
          exact hadded.added mq hmq hpull
      obtain ⟨pq, hlookup⟩ := hlookup
      refine (h.update r).pulled hlookup ?_
      rw [update_eq] at hlookup ⊢
      rcases hadded.new mq pq hlookup with hold | hnew
      · -- A queue that the first loop has left in the table was not dropped by it.
        obtain ⟨hbefore, hnot⟩ := (hloop.table mq pq).mp hold
        have hkeys : mq ∈ c.processQueueTable.keys :=
          AList.mem_keys.mpr (mem_iff_lookup.mpr ⟨pq, hbefore⟩)
        have hthis := hcond mq hmq pq hbefore
        rw [hadded.dropped pq (hinv.table mq pq hold), Bool.eq_false_iff, Ne,
          isDropped_removeLoop h hbefore]
        split_ifs at hthis with hexpired
        · exact absurd ⟨hkeys, ⟨r.topic_eq mq hmq, .inr hexpired⟩, hthis⟩ hnot
        · rintro (hdropped | ⟨-, hleaves | hexpired'⟩)
          · exact Bool.false_ne_true (hthis.symm.trans hdropped)
          · exact hleaves hmq
          · exact hexpired hexpired'
      · exact hnew.2
    · rw [update_eq] at hlookup ⊢
      rcases hadded.new mq pq hlookup with hold | hnew
      · rw [hadded.dropped pq (hinv.table mq pq hold),
          isDropped_removeLoop h ((hloop.table mq pq).mp hold).1]
        exact .inr ⟨htopic, .inl hmq⟩
      · exact absurd hnew.1 hmq

end

/-! ### Runs -/

structure Inv (s : State) : Prop where
  consumer : s.consumer.Inv
  sound : Sound s

lemma inv_apply {c : Consumer} (h : c.Inv) (a : Action) : (a.apply c).Inv := by
  cases a with
  | updateProcessQueueTableInRebalance r => exact h.update r
  | truncateMessageQueueNotMyTopic subscriptionInner =>
    exact h.truncateMessageQueueNotMyTopic subscriptionInner
  | pullMessage i nextBeginOffset => exact h.pullMessage i nextBeginOffset
  | offsetIllegal i => exact h.offsetIllegal i
  | removeProcessQueue mq => exact h.removeProcessQueue mq
  | resetOffset body rounds subscriptionInner =>
    exact h.resetOffset body.topic_eq rounds subscriptionInner

theorem inv_step (s : State) (a : Action) (s' : State) (h : Inv s) (hok : Renewable s a)
    (hs : step s a = some s') : Inv s' := by
  cases hs
  refine ⟨inv_apply h.consumer a, fun r hr => ?_⟩
  cases a with
  | updateProcessQueueTableInRebalance r' =>
    cases hr
    exact (good_iff h.consumer).mpr hok
  | truncateMessageQueueNotMyTopic => cases hr
  | pullMessage => cases hr
  | offsetIllegal => cases hr
  | removeProcessQueue => cases hr
  | resetOffset => cases hr

lemma renewable_of_sound (s : State) (a : Action) (h : Inv s)
    (hP : ∀ s', step s a = some s' → Sound s') : Renewable s a := by
  cases a with
  | updateProcessQueueTableInRebalance r => exact (good_iff h.consumer).mp (hP _ rfl r rfl)
  | truncateMessageQueueNotMyTopic => exact trivial
  | pullMessage => exact trivial
  | offsetIllegal => exact trivial
  | removeProcessQueue => exact trivial
  | resetOffset => exact trivial

/-- **Allocated queues are pulled.** After every round of a run each allocated queue is pulled and
the others of the topic are dropped, exactly when no round meets an allocated queue that is
dropped and cannot be renewed. -/
theorem queues_pulled (consumeOrderly clustering : Bool) (as : List Action) :
    (∀ as', as' <+: as → ∀ s, run step (newState consumeOrderly clustering) as' = some s →
      Sound s) ↔ Meets step Renewable (newState consumeOrderly clustering) as :=
  holds_along_iff inv_step (fun _ => Inv.sound) renewable_of_sound
    ⟨inv_new consumeOrderly clustering, fun _ h => by cases h⟩

/-! ### A queue that comes back -/

def queueOfT : MessageQueue := ⟨['t'], ['b'], 0⟩

lemma topic_queueOfT : ∀ mq ∈ [queueOfT], mq.topic = ['t'] := by decide

lemma topic_none : ∀ mq ∈ ([] : List MessageQueue), mq.topic = ['t'] := by decide

/-- The queue is allocated; its place is found. -/
def given : Round where
  topic := ['t']
  mqSet := [queueOfT]
  topic_eq := topic_queueOfT
  tryLock := fun _ => false
  isPullExpired := fun _ => false
  computePullFromWhere := fun _ => 0

/-- Nothing is allocated, and the queue is being consumed. -/
def takenWhileConsumed : Round where
  topic := ['t']
  mqSet := []
  topic_eq := topic_none
  tryLock := fun _ => false
  isPullExpired := fun _ => false
  computePullFromWhere := fun _ => 0

def givenBack : List Action :=
  [.updateProcessQueueTableInRebalance given,
    .updateProcessQueueTableInRebalance takenWhileConsumed,
    .updateProcessQueueTableInRebalance given]

/-- The state of an orderly consumer after a run. -/
def after (as : List Action) : State := (run step (newState true true) as).getD (newState true true)

theorem queue_not_pulled : ¬∀ (consumeOrderly clustering : Bool) (as : List Action) (s : State),
    run step (newState consumeOrderly clustering) as = some s → Sound s := by
  intro h
  obtain ⟨pq, hlookup, hdropped, -⟩ := (h true true givenBack (after givenBack) rfl given rfl).1
    queueOfT List.mem_cons_self (.inr (by decide))
  have hpq : (after givenBack).consumer.processQueueTable.lookup queueOfT = some 0 := by
    decide
  obtain rfl := Option.some.inj (hpq.symm.trans hlookup)
  have hgone : (after givenBack).consumer.isDropped 0 = true := by decide
  exact Bool.false_ne_true (hdropped.symm.trans hgone)

end CloudMQ.QueueRounds
