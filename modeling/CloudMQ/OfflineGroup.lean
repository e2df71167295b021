import CloudMQ.OffsetTable
import CloudMQ.PullFromWhere

/-!
Where a group that was offline starts again.

While no client of a group subscribes to a topic, the broker drops the progress of the group on
the topic once no queue of it is ahead of the first entry in the store. A group without progress
is treated as a new one: it starts at 0 while the whole queue is young, and otherwise where its
settings say, which by default is the end of the queue.
-/

namespace CloudMQ.OfflineGroup

open CloudMQ.Utf8 CloudMQ.Tables CloudMQ.Runs CloudMQ.TopicRoutes CloudMQ.ConsumerOffsets
open CloudMQ.OffsetTable (Name key_inj)
open CloudMQ.PullFromWhere

/-- The table and its file, the ends of the queues by topic, and the last offset that was committed
for a topic, group and queue. -/
structure State where
  consumerOffsetManager : ConsumerOffsetManager
  file : Option (Table Text (Table Int32 Int64))
  minOffset : Text → Int32 → ℕ
  maxOffset : Text → Int32 → ℕ
  committed : Name → Name → Int32 → Option Int64

def newState : State := ⟨{}, none, fun _ _ => 0, fun _ _ => 0, fun _ _ _ => none⟩

/-- Entries expire from the head of a queue; `restart` is a broker that comes up again. -/
inductive Action
  | commitOffset (group topic : Name) (queueId : Int32) (offset : Int64)
  | append (topic : Text) (queueId : Int32)
  | expire (topic : Text) (queueId : Int32) (n : ℕ)
  | scanUnsubscribedTopic (findSubscriptionData : Text → Text → Bool)
  | persist
  | restart

section

variable (s : State)

def getMinOffsetInQuque (topic : Text) (queueId : Int32) : ℤ := s.minOffset topic queueId

/-- A file that is missing leaves the new table empty. -/
def load : ConsumerOffsetManager := (s.file.map ConsumerOffsetManager.decode).getD {}

def step : Action → Option State
  | .commitOffset group topic queueId offset => some { s with
      consumerOffsetManager :=
        s.consumerOffsetManager.commitOffset group.text topic.text queueId offset
      committed := fun topic' group' queueId' =>
        if topic' = topic ∧ group' = group ∧ queueId' = queueId then some offset
        else s.committed topic' group' queueId' }
  | .append topic queueId => some { s with
      maxOffset := fun topic' queueId' =>
        if topic' = topic ∧ queueId' = queueId then s.maxOffset topic' queueId' + 1
        else s.maxOffset topic' queueId' }
  | .expire topic queueId n =>
    if s.minOffset topic queueId + n ≤ s.maxOffset topic queueId then some { s with
      minOffset := fun topic' queueId' =>
        if topic' = topic ∧ queueId' = queueId then s.minOffset topic' queueId' + n
        else s.minOffset topic' queueId' }
    else none
  | .scanUnsubscribedTopic findSubscriptionData => some { s with
      consumerOffsetManager := s.consumerOffsetManager.scanUnsubscribedTopic
        (getMinOffsetInQuque s) findSubscriptionData }
  | .persist => some { s with file := some s.consumerOffsetManager.encode }
  | .restart => some { s with consumerOffsetManager := load s }

/-! ### A consumer that starts -/

/-- The broker's answer; `none` is `QUERY_NOT_FOUND`. Whether the first message of the queue is on
disk only is up to the size of the memory. -/
def queryConsumerOffset (checkInDiskByConsumeOffset : Bool) (group topic : Text)
    (queueId : Int32) : Option ℤ :=
  let offset := s.consumerOffsetManager.queryOffset group topic queueId
  if 0 ≤ offset.toInt then some offset.toInt
  else if getMinOffsetInQuque s topic queueId ≤ 0 ∧ !checkInDiskByConsumeOffset then some 0
  else none

/-- `RemoteBrokerOffsetStore.readOffset` from the store, from an answer or another failure. -/
def readOffset : Option (Option ℤ) → ℤ
  | none => -2
  | some none => -1
  | some (some brokerOffset) => brokerOffset

/-- What a consumer that starts finds: whether it reaches the broker when it asks for its offset
and for the end of the queue, and what a search by time comes to. -/
structure Surroundings where
  settings : Settings
  brokerName : Text
  checkInDiskByConsumeOffset : Bool
  offsetAnswered : Bool
  maxOffsetAnswered : Bool
  searchOffset : MessageQueue → ℤ → Option ℤ

def pullFromWhere (w : Surroundings) (group topic : Text) (queueId : Int32) : Option ℤ :=
  computePullFromWhere w.settings
    { maxOffset := fun mq =>
        if w.maxOffsetAnswered then some (s.maxOffset mq.topic mq.queueId) else none
      searchOffset := w.searchOffset }
    ⟨topic, w.brokerName, queueId⟩
    (readOffset <|
      if w.offsetAnswered then
        some (queryConsumerOffset s w.checkInDiskByConsumeOffset group topic queueId)
      else none)

/-- The place that a group may start from when it committed an offset: not behind the offset, or
behind the first entry that is left. -/
def limit (topic : Text) (queueId : Int32) (c : Int64) : ℤ :=
  max c.toInt (getMinOffsetInQuque s topic queueId)

/-- No entry that the group has not consumed is skipped. -/
def Resumes (group topic : Name) : Prop :=
  ∀ queueId c, s.committed topic group queueId = some c → 0 ≤ c.toInt →
    ∀ w result, pullFromWhere s w group.text topic.text queueId = some result →
      result < 0 ∨ result ≤ limit s topic.text queueId c

/-- The scan does not take the progress of the group for that of a group far behind, and a broker
comes up again with a progress for each queue, not ahead of the last one. -/
def Keeps (group topic : Name) : Action → Prop
  | .scanUnsubscribedTopic findSubscriptionData =>
    s.consumerOffsetManager.isUnsubscribed (getMinOffsetInQuque s) findSubscriptionData
      (topic.key group) = false
  | .restart => ∀ queueId c, s.committed topic group queueId = some c → 0 ≤ c.toInt →
    ∃ o : Int64, (s.file.bind fun t => ConsumerOffsetManager.stored t (topic.key group) queueId) =
      some o ∧ 0 ≤ o.toInt ∧ o.toInt ≤ limit s topic.text queueId c
  | _ => True

/-! ### The invariant -/

/-- The group has a progress for each queue, not ahead of the last one. -/
structure Inv (group topic : Name) : Prop where
  valid : s.consumerOffsetManager.Valid
  apart : s.consumerOffsetManager.Apart
  kept : ∀ queueId c, s.committed topic group queueId = some c → 0 ≤ c.toInt →
    ∃ o : Int64, s.consumerOffsetManager.find (topic.key group) queueId = some o ∧
      0 ≤ o.toInt ∧ o.toInt ≤ limit s topic.text queueId c

end

lemma inv_new (group topic : Name) : Inv newState group topic where
  valid := ConsumerOffsetManager.valid_empty
  apart := ConsumerOffsetManager.apart_empty
  kept := fun _ _ h => by cases h

section

variable {s : State} {group topic : Name}

/-- A group that has a progress is given it, or no answer. -/
lemma Inv.resumes (h : Inv s group topic) : Resumes s group topic := by
  intro queueId c hc hpos w result hresult
  obtain ⟨o, ho, hopos, hle⟩ := h.kept queueId c hc hpos
  have hquery : queryConsumerOffset s w.checkInDiskByConsumeOffset group.text topic.text queueId =
      some o.toInt := by
    have hoffset : s.consumerOffsetManager.queryOffset group.text topic.text queueId = o :=
      congrArg (·.getD (-1)) ho
    rw [queryConsumerOffset, hoffset]
    exact if_pos hopos
  rw [pullFromWhere, hquery] at hresult
  cases hanswered : w.offsetAnswered with
  | true =>
    rw [hanswered, if_pos rfl, readOffset, computePullFromWhere_of_nonneg hopos] at hresult
    obtain rfl := Option.some.inj hresult
    exact .inr hle
  | false =>
    rw [hanswered] at hresult
    obtain rfl := Option.some.inj hresult
    exact .inl (by decide)

lemma Inv.commitOffset (h : Inv s group topic) (group' topic' : Name) (queueId : Int32)
    (offset : Int64) {s' : State}
    (hs : step s (.commitOffset group' topic' queueId offset) = some s') :
    Inv s' group topic := by
  cases hs
  refine ⟨h.valid.putOffset,
    h.apart.commitOffset h.valid group'.text topic'.text queueId offset,
    fun queueId' c hc hpos => ?_⟩
  dsimp only at hc ⊢
  rw [ConsumerOffsetManager.find_commitOffset h.valid h.apart]
  have hkey : topic.key group = topicAtGroup topic'.text group'.text ∧ queueId' = queueId ↔
      topic = topic' ∧ group = group' ∧ queueId' = queueId := by
    rw [show topicAtGroup topic'.text group'.text = topic'.key group' from rfl, key_inj, and_assoc]
  simp only [hkey]
  split_ifs at hc ⊢ with heq
  · cases hc
    exact ⟨offset, rfl, hpos, le_max_left _ _⟩
  · exact h.kept queueId' c hc hpos

theorem inv_step {s' : State} {a : Action} (h : Inv s group topic) (hok : Keeps s group topic a)
    (hs : step s a = some s') : Inv s' group topic := by
  cases a with
  | commitOffset group' topic' queueId offset =>
    exact h.commitOffset group' topic' queueId offset hs
  | append topic' queueId =>
    cases hs
    exact ⟨h.valid, h.apart, h.kept⟩
  | expire topic' queueId n =>
    rw [step] at hs
    split_ifs at hs
    cases hs
    refine ⟨h.valid, h.apart, fun queueId' c hc hpos => ?_⟩
    obtain ⟨o, ho, hopos, hle⟩ := h.kept queueId' c hc hpos
    refine ⟨o, ho, hopos, hle.trans (max_le_max le_rfl ?_)⟩
    dsimp only [getMinOffsetInQuque]
    split_ifs <;> omega
  | scanUnsubscribedTopic findSubscriptionData =>
    cases hs
    refine ⟨h.valid.scanUnsubscribedTopic (getMinOffsetInQuque s) findSubscriptionData,
      h.apart.scanUnsubscribedTopic (getMinOffsetInQuque s) findSubscriptionData,
      fun queueId c hc hpos => ?_⟩
    dsimp only
    rw [ConsumerOffsetManager.find_scanUnsubscribedTopic queueId hok]
    exact h.kept queueId c hc hpos
  | persist =>
    cases hs
    exact ⟨h.valid, h.apart, h.kept⟩
  | restart =>
    cases hs
    dsimp only [load]
    cases hfile : s.file with
    | none =>
      refine ⟨ConsumerOffsetManager.valid_empty, ConsumerOffsetManager.apart_empty,
        fun queueId c hc hpos => ?_⟩
      obtain ⟨o, ho, -⟩ := hok queueId c hc hpos
      rw [hfile] at ho
      cases ho
    | some t =>
      refine ⟨ConsumerOffsetManager.valid_decode t, ConsumerOffsetManager.apart_decode t,
        fun queueId c hc hpos => ?_⟩
      obtain ⟨o, ho, hbounds⟩ := hok queueId c hc hpos
      rw [hfile] at ho
      refine ⟨o, ?_, hbounds⟩
      rw [Option.map_some, Option.getD_some, ConsumerOffsetManager.find_decode]
      exact ho

end

/-- **A group that was offline** starts where it stopped, or at the first entry that is left, in
every run in which no scan takes it for a group that is far behind. -/
theorem offline_resumes (group topic : Name) (as : List Action) (s : State)
    (hm : Meets step (fun s => Keeps s group topic) newState as)
    (hr : run step newState as = some s) : Resumes s group topic :=
  (run_invariant (fun _ _ _ => inv_step) (inv_new group topic) hm hr).resumes

/-! ### A group that is ahead, and one that is behind -/

open CloudMQ.OffsetTable (topicT groupA)

/-- The state after a run. -/
def after (as : List Action) : State := (run step newState as).getD newState

/-- The group is ahead of the first entry when the scan comes. -/
def aheadOfData : List Action :=
  [.append ['t'] 0, .append ['t'] 0, .commitOffset groupA topicT 0 1,
    .scanUnsubscribedTopic fun _ _ => false, .persist, .restart]

theorem offline_resumes_ahead : Resumes (after aheadOfData) groupA topicT := by
  refine offline_resumes groupA topicT aheadOfData _ ?_ rfl
  refine Meets.cons rfl trivial (Meets.cons rfl trivial (Meets.cons rfl trivial
    (Meets.cons rfl ?_ (Meets.cons rfl trivial (Meets.cons rfl ?_ trivial)))))
  · change ConsumerOffsetManager.isUnsubscribed _ _ _ _ = false
    decide
  · intro queueId c hc hpos
    rcases ite_eq_iff.mp hc with ⟨⟨-, -, rfl⟩, hc⟩ | ⟨-, hc⟩
    · cases hc
      exact ⟨1, by decide, by decide, by decide⟩
    · cases hc

/-- One entry that the group has not consumed has expired, and another one has not. -/
def behindData : List Action :=
  [.append ['t'] 0, .append ['t'] 0, .commitOffset groupA topicT 0 0, .expire ['t'] 0 1,
    .scanUnsubscribedTopic fun _ _ => false]

/-- A consumer with the default settings that reaches the broker. -/
def atTheEnd : Surroundings where
  settings := ⟨.CONSUME_FROM_LAST_OFFSET, none⟩
  brokerName := ['b']
  checkInDiskByConsumeOffset := false
  offsetAnswered := true
  maxOffsetAnswered := true
  searchOffset := fun _ _ => none

theorem offline_skips : ¬∀ (group topic : Name) (as : List Action) (s : State),
    run step newState as = some s → Resumes s group topic := by
  intro h
  have hresumes := h groupA topicT behindData (after behindData) rfl 0 0 (by decide)
    (by decide) atTheEnd 2 (by decide)
  exact absurd hresumes (by decide)

end CloudMQ.OfflineGroup
