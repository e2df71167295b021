import CloudMQ.ConcurrentConsume
import CloudMQ.ConsumerOffsets
import CloudMQ.GetMessage
import CloudMQ.SlaveSync

/-!
Pulling from a slave: `PullMessageProcessor.processRequest` and the callback of a push consumer.

The store answers an offset that is not in its queue with one that is. A master says that the
offset was moved, and so does a slave that checks offsets; any other slave says that the consumer
should try again, and leaves the corrected offset in the answer, where the callback takes it for
the place to go on.
-/

namespace CloudMQ.SlavePulls

open CloudMQ.Buffer CloudMQ.Utf8 CloudMQ.Segment CloudMQ.LogBytes CloudMQ.ConsumeQueues
open CloudMQ.QueueEntries CloudMQ.Dispatch CloudMQ.TagFilter CloudMQ.GetMessage CloudMQ.Topics
open CloudMQ.PulledMessages (MessageModel ProcessQueue)
open CloudMQ.CommitLog (BrokerRole)
open CloudMQ.SlaveSync (SubscriptionGroupConfig)
open CloudMQ.ConsumerOffsets (ConsumerOffsetManager)
open CloudMQ.ConcurrentConsume (increaseOnly)

/-! ### The processor -/

def FLAG_COMMIT_OFFSET : Int32 := 1
def FLAG_SUSPEND : Int32 := 2
def FLAG_SUBSCRIPTION : Int32 := 4

def hasCommitOffsetFlag (sysFlag : Int32) : Bool :=
  sysFlag &&& FLAG_COMMIT_OFFSET == FLAG_COMMIT_OFFSET
def hasSuspendFlag (sysFlag : Int32) : Bool := sysFlag &&& FLAG_SUSPEND == FLAG_SUSPEND
def hasSubscriptionFlag (sysFlag : Int32) : Bool :=
  sysFlag &&& FLAG_SUBSCRIPTION == FLAG_SUBSCRIPTION

structure PullMessageRequestHeader where
  consumerGroup : Text
  topic : Text
  queueId : Int32
  queueOffset : ℤ
  maxMsgNums : Int32
  sysFlag : Int32
  commitOffset : Int64
  suspendTimeoutMillis : ℤ
  subscription : Option Text
  subVersion : ℤ

inductive ResponseCode
  | SUCCESS
  | SYSTEM_ERROR
  | NO_PERMISSION
  | TOPIC_NOT_EXIST
  | SUBSCRIPTION_GROUP_NOT_EXIST
  | SUBSCRIPTION_PARSE_FAILED
  | SUBSCRIPTION_NOT_EXIST
  | SUBSCRIPTION_NOT_LATEST
  | PULL_NOT_FOUND
  | PULL_RETRY_IMMEDIATELY
  | PULL_OFFSET_MOVED
deriving DecidableEq

/-- An answer; `body` is what the channel transfers. -/
structure Response where
  code : ResponseCode
  suggestWhichBrokerId : Int64 := 0
  nextBeginOffset : ℤ := 0
  minOffset : ℤ := 0
  maxOffset : ℤ := 0
  body : List SelectMapedBufferResult := []

inductive Answer
  | response (r : Response)
  | suspended (pollingTimeMills : ℤ)

structure OffsetMovedEvent where
  consumerGroup : Text
  topic : Text
  queueId : Int32
  offsetRequest : ℤ
  offsetNew : ℤ

/-- A subscription as a consumer registered it, with its version. -/
structure Subscription where
  data : SubscriptionData
  subVersion : ℤ

structure ConsumerGroupInfo where
  messageModel : MessageModel
  findSubscriptionData : Text → Option Subscription

structure Broker where
  brokerPermission : Int32
  brokerRole : BrokerRole
  offsetCheckInSlave : Bool
  longPollingEnable : Bool
  shortPollingTimeMills : ℤ
  findSubscriptionGroupConfig : Text → Option SubscriptionGroupConfig
  selectTopicConfig : Text → Option TopicConfig
  getConsumerGroupInfo : Text → Option ConsumerGroupInfo
  consumerOffsetManager : ConsumerOffsetManager
  messageStore : MessageStore

/-- What a request leads to. -/
structure Processed where
  answer : Answer
  offsetMovedEvent : Option OffsetMovedEvent := none
  consumerOffsetManager : ConsumerOffsetManager

namespace Broker

variable (b : Broker) (requestHeader : PullMessageRequestHeader)

/-- The subscription of a request: its own, or the one that the group registered. -/
def subscriptionOf (subscriptionGroupConfig : SubscriptionGroupConfig) :
    Except ResponseCode SubscriptionData :=
  if hasSubscriptionFlag requestHeader.sysFlag then
    match buildSubscriptionData requestHeader.subscription with
    | none => .error .SUBSCRIPTION_PARSE_FAILED
    | some subscriptionData => .ok subscriptionData
  else
    match b.getConsumerGroupInfo requestHeader.consumerGroup with
    | none => .error .SUBSCRIPTION_NOT_EXIST
    | some consumerGroupInfo =>
      if !subscriptionGroupConfig.consumeBroadcastEnable &&
          consumerGroupInfo.messageModel == .BROADCASTING then .error .NO_PERMISSION
      else
        match consumerGroupInfo.findSubscriptionData requestHeader.topic with
        | none => .error .SUBSCRIPTION_NOT_EXIST
        | some subscription =>
          if subscription.subVersion < requestHeader.subVersion then .error .SUBSCRIPTION_NOT_LATEST
          else .ok subscription.data

/-- The checks in front of the store. -/
def check : Except ResponseCode (SubscriptionGroupConfig × SubscriptionData) :=
  if !isReadable b.brokerPermission then .error .NO_PERMISSION
  else
    match b.findSubscriptionGroupConfig requestHeader.consumerGroup with
    | none => .error .SUBSCRIPTION_GROUP_NOT_EXIST
    | some subscriptionGroupConfig =>
      if !subscriptionGroupConfig.consumeEnable then .error .NO_PERMISSION
      else
        match b.selectTopicConfig requestHeader.topic with
        | none => .error .TOPIC_NOT_EXIST
        | some topicConfig =>
          if !isReadable topicConfig.perm then .error .NO_PERMISSION
          else if requestHeader.queueId < 0 ∨ topicConfig.readQueueNums ≤ requestHeader.queueId then
            .error .SYSTEM_ERROR
          else
            (b.subscriptionOf requestHeader subscriptionGroupConfig).map fun subscriptionData =>
              (subscriptionGroupConfig, subscriptionData)

/-- The first switch. -/
def codeOf (queueOffset : ℤ) : GetMessageStatus → ResponseCode
  | .FOUND => .SUCCESS
  | .MESSAGE_WAS_REMOVING => .PULL_RETRY_IMMEDIATELY
  | .NO_MATCHED_LOGIC_QUEUE | .NO_MESSAGE_IN_QUEUE =>
    if 0 ≠ queueOffset then .PULL_OFFSET_MOVED else .PULL_NOT_FOUND
  | .NO_MATCHED_MESSAGE => .PULL_RETRY_IMMEDIATELY
  | .OFFSET_FOUND_NULL => .PULL_NOT_FOUND
  | .OFFSET_OVERFLOW_BADLY => .PULL_OFFSET_MOVED
  | .OFFSET_OVERFLOW_ONE => .PULL_NOT_FOUND
  | .OFFSET_TOO_SMALL => .PULL_OFFSET_MOVED

/-- The answer of the store, before the second switch. -/
def responseOf (queueOffset : ℤ) (subscriptionGroupConfig : SubscriptionGroupConfig)
    (result : GetMessageResult) : Response where
  code := codeOf queueOffset result.status
  suggestWhichBrokerId :=
    if result.suggestPullingFromSlave then subscriptionGroupConfig.whichBrokerWhenConsumeSlowly
    else subscriptionGroupConfig.brokerId
  nextBeginOffset := result.nextBeginOffset
  minOffset := result.minOffset
  maxOffset := result.maxOffset

/-- The second switch. -/
def answerOf (brokerAllowSuspend : Bool) (subscriptionGroupConfig : SubscriptionGroupConfig)
    (result : GetMessageResult) : Answer × Option OffsetMovedEvent :=
  let response := responseOf requestHeader.queueOffset subscriptionGroupConfig result
  match response.code with
  | .SUCCESS => (.response { response with body := result.messageMapedList }, none)
  | .PULL_NOT_FOUND =>
    if brokerAllowSuspend && hasSuspendFlag requestHeader.sysFlag then
      (.suspended (if b.longPollingEnable then requestHeader.suspendTimeoutMillis
        else b.shortPollingTimeMills), none)
    else (.response response, none)
  | .PULL_OFFSET_MOVED =>
    if b.brokerRole ≠ .SLAVE ∨ b.offsetCheckInSlave then
      (.response response, some {
        consumerGroup := requestHeader.consumerGroup
        topic := requestHeader.topic
        queueId := requestHeader.queueId
        offsetRequest := requestHeader.queueOffset
        offsetNew := result.nextBeginOffset })
    else
      (.response { response with
        suggestWhichBrokerId := subscriptionGroupConfig.brokerId
        code := .PULL_RETRY_IMMEDIATELY }, none)
  | _ => (.response response, none)

/-- Only a master keeps the offsets of consumers. -/
def storeOffset (brokerAllowSuspend : Bool) : ConsumerOffsetManager :=
  if brokerAllowSuspend && hasCommitOffsetFlag requestHeader.sysFlag && b.brokerRole != .SLAVE then
    b.consumerOffsetManager.commitOffset requestHeader.consumerGroup requestHeader.topic
      requestHeader.queueId requestHeader.commitOffset
  else b.consumerOffsetManager

/-- `processRequest`. An error is an exception in the store. -/
def processRequest (brokerAllowSuspend : Bool) : Except Unit Processed :=
  match b.check requestHeader with
  | .error code =>
    .ok { answer := .response { code }, consumerOffsetManager := b.consumerOffsetManager }
  | .ok (subscriptionGroupConfig, subscriptionData) =>
    (b.messageStore.getMessage requestHeader.topic requestHeader.queueId requestHeader.queueOffset
      requestHeader.maxMsgNums (some subscriptionData)).map fun getMessageResult =>
        let consumerOffsetManager := b.storeOffset requestHeader brokerAllowSuspend
        match getMessageResult with
        | none => { answer := .response { code := .SYSTEM_ERROR }, consumerOffsetManager }
        | some result =>
          let r := b.answerOf requestHeader brokerAllowSuspend subscriptionGroupConfig result
          { answer := r.1, offsetMovedEvent := r.2, consumerOffsetManager }

end Broker

/-! ### The callback -/

inductive PullStatus | FOUND | NO_NEW_MSG | NO_MATCHED_MSG | OFFSET_ILLEGAL
deriving DecidableEq

/-- `processPullResponse`; the other codes are an `MQBrokerException`. -/
def pullStatus : ResponseCode → Option PullStatus
  | .SUCCESS => some .FOUND
  | .PULL_NOT_FOUND => some .NO_NEW_MSG
  | .PULL_RETRY_IMMEDIATELY => some .NO_MATCHED_MSG
  | .PULL_OFFSET_MOVED => some .OFFSET_ILLEGAL
  | _ => none

/-- What a push consumer has for a queue: the pull request with its `ProcessQueue`, the entry of
the offset store, and the broker to pull from. -/
structure PullRequest where
  nextOffset : ℤ
  processQueue : ProcessQueue
  offset : Option ℤ
  pullFromWhichNode : Int64

namespace PullRequest

def correctTagsOffset (p : PullRequest) : PullRequest :=
  if p.processQueue.msgCount = 0 then { p with offset := increaseOnly p.offset p.nextOffset } else p

/-- `onSuccess`. `msgList` are the messages that the body is decoded to, and `subscriptionData` is
what the client subscribed to. -/
def onSuccess (p : PullRequest) (subscriptionData : SubscriptionData)
    (msgList : List MessageDecoder.MessageExt) (r : Response) : Option PullRequest :=
  let next := { p with
    pullFromWhichNode := r.suggestWhichBrokerId
    nextOffset := r.nextBeginOffset }
  (pullStatus r.code).map fun status =>
    match status with
    | .FOUND =>
      match msgListFilterAgain subscriptionData msgList with
      | [] => next
      | msgFoundList => { next with
          processQueue := (p.processQueue.putMessage (msgFoundList.map fun msg =>
            ⟨msg.queueOffset.toInt, some r.maxOffset⟩)).1 }
    | .NO_NEW_MSG | .NO_MATCHED_MSG => next.correctTagsOffset
    | .OFFSET_ILLEGAL => { next with processQueue := p.processQueue.setDropped true }

end PullRequest

/-! ### A slave beside its master -/

section Pulls

variable {m s : MessageStore} {key : Text × Int32} {data : SubscriptionData} {o : ℤ}

/-- The master has the messages of its entries, and the slave has no other entries; its queue may
begin later and end earlier. -/
structure Replica (key : Text × Int32) (m s : MessageStore) : Prop where
  held : ∀ i u, (m.queue key).getMinOffsetInQuque ≤ i → entryAt (m.queue key) i = some u →
    ∃ r, m.read u = .ok (some r) ∧ (r.startOffset : ℤ) = u.offset.toInt
  same : ∀ i u, (m.queue key).getMinOffsetInQuque ≤ i → (s.queue key).getMinOffsetInQuque ≤ i →
    entryAt (s.queue key) i = some u → entryAt (m.queue key) i = some u
  ordered : (s.queue key).getMaxOffsetInQuque ≠ 0 →
    (s.queue key).getMinOffsetInQuque ≤ (s.queue key).getMaxOffsetInQuque

/-- A pull at `o` neither skips nor rewinds: the consumer goes on behind messages that it got or
did not ask for, and what it records as consumed does not lie behind that. -/
structure Kept (key : Text × Int32) (m : MessageStore) (data : SubscriptionData) (o : ℤ)
    (body : List SelectMapedBufferResult) (p p' : PullRequest) : Prop where
  not_rewound : o ≤ p'.nextOffset
  not_skipped : ∀ (i : ℕ) u, o ≤ i → i < p'.nextOffset → entryAt (m.queue key) i = some u →
    isMessageMatched (some data) u.tagsCode → ∃ r, m.read u = .ok (some r) ∧ r ∈ body
  recorded : ∀ v, p'.offset = some v → p.offset = some v ∨ v ≤ p'.nextOffset

/-- The master has no entry from `o` to before `n` that is asked for. -/
def NoneAsked (key : Text × Int32) (m : MessageStore) (data : SubscriptionData) (o n : ℤ) : Prop :=
  ∀ (i : ℕ) u, o ≤ i → i < n → entryAt (m.queue key) i = some u →
    ¬isMessageMatched (some data) u.tagsCode

/-- The slave's log has the messages that fit into an answer, and their bytes do not sum up to
zero unless the last entry is asked for. -/
structure Readable (m s : MessageStore) (maxMsgNums : Int32) (data : SubscriptionData)
    (us : List CQUnit) : Prop where
  read : ∀ u ∈ batch s maxMsgNums (some data) us 0 0, isMessageMatched (some data) u.tagsCode →
    s.read u = m.read u
  sent : ∀ u ∈ (batch s maxMsgNums (some data) us 0 0).getLast?,
    (∃ v ∈ batch s maxMsgNums (some data) us 0 0, isMessageMatched (some data) v.tagsCode) →
    isMessageMatched (some data) u.tagsCode ∨
      total (some data) (batch s maxMsgNums (some data) us 0 0) ≠ 0

/-- What the slave needs to have for a pull at `o`. -/
structure Served (key : Text × Int32) (m s : MessageStore) (maxMsgNums : Int32)
    (data : SubscriptionData) (o : ℤ) : Prop where
  reached : o ≤ (s.queue key).getMaxOffsetInQuque
  begun : (s.queue key).getMaxOffsetInQuque ≠ 0 →
    NoneAsked key m data o (s.queue key).getMinOffsetInQuque
  readable : (s.queue key).getMinOffsetInQuque ≤ o → o < (s.queue key).getMaxOffsetInQuque →
    match getIndexBuffer (s.queue key) o.toNat with
    | none => NoneAsked key m data o (rollNextQueueFile (s.queue key) o)
    | some bufferConsumeQueue =>
      Readable m s maxMsgNums data (MessageStore.scanned bufferConsumeQueue)

/-- What the callback takes from an answer. -/
lemma onSuccess_spec {p p' : PullRequest} {sub : SubscriptionData}
    {msgList : List MessageDecoder.MessageExt} {r : Response}
    (h : p.onSuccess sub msgList r = some p') :
    p'.nextOffset = r.nextBeginOffset ∧
      ∀ v, p'.offset = some v → p.offset = some v ∨ v ≤ p'.nextOffset := by
  obtain ⟨status, -, rfl⟩ := Option.map_eq_some_iff.mp h
  have hcorrect : ∀ q : PullRequest, q.correctTagsOffset.nextOffset = q.nextOffset ∧
      ∀ v, q.correctTagsOffset.offset = some v → q.offset = some v ∨ v ≤ q.nextOffset := by
    intro q
    unfold PullRequest.correctTagsOffset
    split
    · refine ⟨rfl, fun v hv => ?_⟩
      change increaseOnly q.offset q.nextOffset = some v at hv
      cases hoffset : q.offset with
      | none =>
        rw [hoffset] at hv
        exact .inr (Option.some.inj hv).ge
      | some old =>
        rw [hoffset] at hv
        rcases max_choice old q.nextOffset with hmax | hmax
        · exact .inl ((congrArg some hmax).symm.trans hv)
        · exact .inr (hmax.symm.trans (Option.some.inj hv)).ge
    · exact ⟨rfl, fun v hv => .inl hv⟩
  cases status with
  | FOUND =>
    dsimp only
    split
    · exact ⟨rfl, fun v hv => .inl hv⟩
    · exact ⟨rfl, fun v hv => .inl hv⟩
  | NO_NEW_MSG =>
    obtain ⟨hnext, hrecorded⟩ := hcorrect { p with
      pullFromWhichNode := r.suggestWhichBrokerId
      nextOffset := r.nextBeginOffset }
    exact ⟨hnext, fun v hv => hnext ▸ hrecorded v hv⟩
  | NO_MATCHED_MSG =>
    obtain ⟨hnext, hrecorded⟩ := hcorrect { p with
      pullFromWhichNode := r.suggestWhichBrokerId
      nextOffset := r.nextBeginOffset }
    exact ⟨hnext, fun v hv => hnext ▸ hrecorded v hv⟩
  | OFFSET_ILLEGAL => exact ⟨rfl, fun v hv => .inl hv⟩

lemma codeOf_eq_success {queueOffset : ℤ} {status : GetMessageStatus} :
    Broker.codeOf queueOffset status = .SUCCESS ↔ status = .FOUND := by
  cases status with
  | NO_MATCHED_LOGIC_QUEUE =>
    refine iff_of_false ?_ (by decide)
    rw [Broker.codeOf]
    split <;> decide
  | NO_MESSAGE_IN_QUEUE =>
    refine iff_of_false ?_ (by decide)
    rw [Broker.codeOf]
    split <;> decide
  | _ => simp [Broker.codeOf]

/-- The second switch keeps the offset, and drops what was found unless that is the status. -/
lemma answerOf_spec {b : Broker} {requestHeader : PullMessageRequestHeader}
    {brokerAllowSuspend : Bool} {cfg : SubscriptionGroupConfig} {result : GetMessageResult}
    {r : Response} (h : (b.answerOf requestHeader brokerAllowSuspend cfg result).1 = .response r) :
    r.nextBeginOffset = result.nextBeginOffset ∧
      r.body = (if result.status = .FOUND then result.messageMapedList else []) ∧
      (b.brokerRole = .SLAVE → b.offsetCheckInSlave = false → r.code ≠ .PULL_OFFSET_MOVED) := by
  have hsuccess := @codeOf_eq_success requestHeader.queueOffset result.status
  rw [if_congr hsuccess.symm rfl rfl]
  unfold Broker.answerOf at h
  dsimp only at h
  change _ ∧ r.body = (if (Broker.responseOf requestHeader.queueOffset cfg result).code = .SUCCESS
    then _ else _) ∧ _
  split at h
  · next hcode =>
    obtain rfl := Answer.response.inj h
    rw [if_pos hcode]
    exact ⟨rfl, rfl, fun _ _ hmoved => absurd (hcode.symm.trans hmoved) (by decide)⟩
  · next hcode =>
    rw [if_neg (by rw [hcode]; decide)]
    split at h
    · exact Answer.noConfusion h
    · obtain rfl := Answer.response.inj h
      exact ⟨rfl, rfl, fun _ _ hmoved => absurd (hcode.symm.trans hmoved) (by decide)⟩
  · next hcode =>
    rw [if_neg (by rw [hcode]; decide)]
    split at h
    · next hchecks =>
      obtain rfl := Answer.response.inj h
      exact ⟨rfl, rfl, fun hslave hcheck => absurd hchecks (by simp [hslave, hcheck])⟩
    · obtain rfl := Answer.response.inj h
      exact ⟨rfl, rfl, fun _ _ hmoved => ResponseCode.noConfusion hmoved⟩
  · next hne _ hmoved =>
    rw [if_neg hne]
    obtain rfl := Answer.response.inj h
    exact ⟨rfl, rfl, fun _ _ => hmoved⟩

/-- What is answered from the store. -/
lemma processRequest_spec {b : Broker} {requestHeader : PullMessageRequestHeader}
    {brokerAllowSuspend : Bool} {cfg : SubscriptionGroupConfig} {processed : Processed}
    {r : Response} (hchecked : b.check requestHeader = .ok (cfg, data))
    (hprocess : b.processRequest requestHeader brokerAllowSuspend = .ok processed)
    (hanswer : processed.answer = .response r) (hstatus : (pullStatus r.code).isSome) :
    ∃ result, b.messageStore.getMessage requestHeader.topic requestHeader.queueId
        requestHeader.queueOffset requestHeader.maxMsgNums (some data) = .ok (some result) ∧
      r.nextBeginOffset = result.nextBeginOffset ∧
      r.body = (if result.status = .FOUND then result.messageMapedList else []) ∧
      (b.brokerRole = .SLAVE → b.offsetCheckInSlave = false → r.code ≠ .PULL_OFFSET_MOVED) := by
  rw [Broker.processRequest, hchecked] at hprocess
  dsimp only at hprocess
  cases hget : b.messageStore.getMessage requestHeader.topic requestHeader.queueId
      requestHeader.queueOffset requestHeader.maxMsgNums (some data) with
  | error e =>
    rw [hget] at hprocess
    exact absurd hprocess (by simp [Except.map])
  | ok result =>
    rw [hget] at hprocess
    obtain rfl := Except.ok.inj hprocess
    cases result with
    | none =>
      obtain rfl := Answer.response.inj hanswer
      exact absurd hstatus (by decide)
    | some result => exact ⟨result, rfl, answerOf_spec hanswer⟩

/-! ### Where the pull goes on -/

/-- Without messages, nothing that is asked for may be passed. -/
lemma kept_nil_iff {p p' : PullRequest}
    (hrecorded : ∀ v, p'.offset = some v → p.offset = some v ∨ v ≤ p'.nextOffset) :
    Kept key m data o [] p p' ↔ o ≤ p'.nextOffset ∧ NoneAsked key m data o p'.nextOffset := by
  constructor
  · refine fun h => ⟨h.not_rewound, fun i u hle hlt hu hmatch => ?_⟩
    obtain ⟨r, -, hr⟩ := h.not_skipped i u hle hlt hu hmatch
    exact absurd hr List.not_mem_nil
  · exact fun h => ⟨h.1, fun i u hle hlt hu hmatch => absurd hmatch (h.2 i u hle hlt hu), hrecorded⟩

/-- **The loop.** What it goes through is answered exactly when the slave has it. -/
lemma kept_scan_iff {p p' : PullRequest} {maxMsgNums : Int32} {us : List CQUnit} {t : Scan}
    {k : ℕ} {body : List SelectMapedBufferResult} (hr : Replica key m s)
    (ho : (m.queue key).getMinOffsetInQuque ≤ o) (hs : (s.queue key).getMinOffsetInQuque ≤ o)
    (hus : ∀ j u, us[j]? = some u → entryAt (s.queue key) (o.toNat + j) = some u)
    (hscan : s.scan maxMsgNums (some data) us {} = .ok (k, t)) (hnext : p'.nextOffset = o + k)
    (hbody : body = if t.status = .FOUND then t.messageMapedList else [])
    (hrecorded : ∀ v, p'.offset = some v → p.offset = some v ∨ v ≤ p'.nextOffset) :
    Kept key m data o body p p' ↔ Readable m s maxMsgNums data us := by
  have hprefix : batch s maxMsgNums (some data) us 0 0 <+: us := batch_prefix us 0 0
  have hentry : ∀ j u, us[j]? = some u → entryAt (m.queue key) (o.toNat + j) = some u :=
    fun j u hu => hr.same _ u (by omega) (by omega) (hus j u hu)
  have hheld : ∀ u ∈ us, ∃ r, m.read u = .ok (some r) ∧ (r.startOffset : ℤ) = u.offset.toInt := by
    intro u hu
    obtain ⟨j, hj⟩ := List.getElem?_of_mem hu
    exact hr.held _ u (by omega) (hentry j u hj)
  obtain ⟨hk, -, hfrom⟩ := scan_messages hscan
  constructor
  · intro hkept
    have hanswered : ∀ j v, j < k → us[j]? = some v → isMessageMatched (some data) v.tagsCode →
        ∃ r, m.read v = .ok (some r) ∧ r ∈ body := by
      intro j v hj hv hmatch
      refine hkept.not_skipped (o.toNat + j) v (by omega) ?_ (hentry j v hv) hmatch
      rw [hnext]
      omega
    have hread : ∀ u ∈ batch s maxMsgNums (some data) us 0 0,
        isMessageMatched (some data) u.tagsCode → s.read u = m.read u := by
      intro u hu hmatch
      by_contra hbad
      obtain ⟨j, v, hj, hv, hvmatch, hvbad⟩ := scan_reaches (fun v => s.read v = m.read v)
        (fun w hw _ hgood => by
          obtain ⟨r, hr, -⟩ := hheld w hw
          exact ⟨r, hgood.trans hr⟩) hscan rfl hu hmatch hbad
      obtain ⟨r, hr, hmem⟩ := hanswered j v hj hv hvmatch
      obtain ⟨r', hr', hplace⟩ := hheld v (List.mem_of_getElem? hv)
      obtain rfl := Option.some.inj (Except.ok.inj (hr.symm.trans hr'))
      have hmem : r ∈ t.messageMapedList := by
        rw [hbody] at hmem
        split at hmem
        · exact hmem
        · exact absurd hmem List.not_mem_nil
      rcases hfrom r hmem with hmem | ⟨w, -, hw⟩
      · exact List.not_mem_nil hmem
      · refine hvbad (Eq.trans ?_ hr.symm)
        exact selectMessage_again s.chained s.mapped hw hplace.symm
          (length_selectMessage m.chained m.mapped hr)
    refine ⟨hread, fun u hu ⟨v, hv, hmatch⟩ => ?_⟩
    obtain ⟨hlen, hfound⟩ := scan_new hscan fun w hw hwmatch => by
      obtain ⟨r, hr, -⟩ := hheld w (List.IsPrefix.subset hprefix hw)
      exact ⟨r, (hread w hw hwmatch).trans hr⟩
    obtain ⟨j, hj⟩ := List.getElem?_of_mem hv
    obtain ⟨r, -, hmem⟩ := hanswered j v (hlen ▸ (List.getElem?_eq_some_iff.mp hj).1)
      (getElem?_of_batch hj) hmatch
    refine (hfound u hu ⟨v, hv, hmatch⟩).mp ?_
    by_contra hstatus
    rw [hbody, if_neg hstatus] at hmem
    exact List.not_mem_nil hmem
  · intro hreadable
    have hgood : ∀ u ∈ batch s maxMsgNums (some data) us 0 0,
        isMessageMatched (some data) u.tagsCode → ∃ r, s.read u = .ok (some r) := by
      intro u hu hmatch
      obtain ⟨r, hr, -⟩ := hheld u (List.IsPrefix.subset hprefix hu)
      exact ⟨r, (hreadable.read u hu hmatch).trans hr⟩
    obtain ⟨hlen, hfound⟩ := scan_new hscan hgood
    refine ⟨by rw [hnext]; omega, fun i u hle hlt hu hmatch => ?_, hrecorded⟩
    obtain ⟨j, rfl⟩ : ∃ j, i = o.toNat + j := ⟨i - o.toNat, by omega⟩
    have hj : j < k := by
      rw [hnext] at hlt
      omega
    -- the entries of the batch are the master's
    have hbatch := List.getElem?_eq_getElem (hlen ▸ hj)
    have husj := getElem?_of_batch hbatch
    obtain rfl := Option.some.inj ((hentry j _ husj).symm.trans hu)
    have hmem := List.mem_of_getElem? hbatch
    obtain ⟨r, hr, hfoundr⟩ := scan_complete hscan rfl hgood hj husj hmatch
    refine ⟨r, (hreadable.read _ hmem hmatch).symm.trans hr, ?_⟩
    have hlast := List.getLast?_eq_some_getLast (List.ne_nil_of_mem hmem)
    have hasked : ∃ v ∈ batch s maxMsgNums (some data) us 0 0,
        isMessageMatched (some data) v.tagsCode := ⟨_, hmem, hmatch⟩
    have hstatus := (hfound _ hlast hasked).mpr (hreadable.sent _ hlast hasked)
    rwa [hbody, if_pos hstatus]

/-- What the store's answer makes of the pull. -/
lemma kept_iff {p p' : PullRequest} {maxMsgNums : Int32} {result : GetMessageResult}
    {body : List SelectMapedBufferResult} (hr : Replica key m s)
    (ho : (m.queue key).getMinOffsetInQuque ≤ o)
    (hget : s.getMessage key.1 key.2 o maxMsgNums (some data) = .ok (some result))
    (hnext : p'.nextOffset = result.nextBeginOffset)
    (hbody : body = if result.status = .FOUND then result.messageMapedList else [])
    (hrecorded : ∀ v, p'.offset = some v → p.offset = some v ∨ v ≤ p'.nextOffset) :
    Kept key m data o body p p' ↔ Served key m s maxMsgNums data o := by
  obtain ⟨topic, queueId⟩ := key
  -- every answer but that of the loop comes without messages
  have hnil : ∀ {n : ℤ}, result.messageMapedList = [] → result.nextBeginOffset = n →
      (Kept (topic, queueId) m data o body p p' ↔
        o ≤ n ∧ NoneAsked (topic, queueId) m data o n) := by
    intro n hlist hn
    rw [hlist, ite_self] at hbody
    rw [hbody, kept_nil_iff hrecorded, hnext, hn]
  have hvacuous : ∀ {n : ℤ}, n ≤ o → NoneAsked (topic, queueId) m data o n :=
    fun hn i u hle hlt _ => absurd hlt (by omega)
  unfold MessageStore.getMessage at hget
  split at hget
  · exact absurd hget (by simp)
  dsimp only at hget
  split at hget
  · next hzero =>
    obtain rfl := Option.some.inj (Except.ok.inj hget)
    rw [hnil (n := 0) rfl rfl]
    constructor
    · rintro ⟨hle, -⟩
      exact ⟨by omega, fun hne => absurd hzero (by exact_mod_cast hne), fun _ hlt => by omega⟩
    · intro h
      have := h.reached
      exact ⟨by omega, hvacuous (by omega)⟩
  next hzero =>
  have hne : (s.queue (topic, queueId)).getMaxOffsetInQuque ≠ 0 := by exact_mod_cast hzero
  split at hget
  · next hsmall =>
    obtain rfl := Option.some.inj (Except.ok.inj hget)
    rw [hnil (n := (s.queue (topic, queueId)).getMinOffsetInQuque) rfl rfl]
    have hordered := hr.ordered hne
    constructor
    · rintro ⟨-, hnone⟩
      exact ⟨by omega, fun _ => hnone, fun hle => absurd hle (not_le.mpr hsmall)⟩
    · exact fun h => ⟨hsmall.le, h.begun hne⟩
  next hsmall =>
  rw [not_lt] at hsmall
  split at hget
  · next heq =>
    obtain rfl := Option.some.inj (Except.ok.inj hget)
    rw [hnil (n := o) rfl rfl]
    refine iff_of_true ⟨le_rfl, hvacuous le_rfl⟩ ?_
    exact ⟨heq.le, fun _ => hvacuous hsmall, fun _ hlt => absurd heq hlt.ne⟩
  next heq =>
  split at hget
  · next hover =>
    obtain rfl := Option.some.inj (Except.ok.inj hget)
    rw [hnil rfl rfl]
    refine iff_of_false (fun h => ?_) fun h => absurd h.reached (not_le.mpr hover)
    have hle := h.1
    dsimp only at hle
    split at hle
    · omega
    · omega
  next hover =>
  rw [not_lt] at hover
  have hserved : Served (topic, queueId) m s maxMsgNums data o ↔
      match getIndexBuffer (s.queue (topic, queueId)) o.toNat with
      | none => NoneAsked (topic, queueId) m data o (rollNextQueueFile (s.queue (topic, queueId)) o)
      | some bufferConsumeQueue =>
        Readable m s maxMsgNums data (MessageStore.scanned bufferConsumeQueue) :=
    ⟨fun h => h.readable hsmall (lt_of_le_of_ne hover heq),
      fun h => ⟨hover, fun _ => hvacuous hsmall, fun _ _ => h⟩⟩
  rw [hserved]
  generalize hbuffer : getIndexBuffer (s.queue (topic, queueId)) o.toNat = buffer at hget ⊢
  cases buffer with
  | none =>
    obtain rfl := Option.some.inj (Except.ok.inj hget)
    dsimp only
    rw [hnil (n := rollNextQueueFile (s.queue (topic, queueId)) o) rfl rfl]
    refine and_iff_right ?_
    have hpos : 0 < (s.queue (topic, queueId)).mapedFileQueue.mapedFileSize / CQStoreUnitSize :=
      Nat.div_pos (Nat.le_of_dvd (s.queue (topic, queueId)).mapedFileQueue.size_pos
        (s.whole_queue (topic, queueId)).dvd)
        (s.whole_queue (topic, queueId)).pos
    have hmod := Int.tmod_lt_of_pos o (Int.natCast_pos.mpr hpos)
    unfold rollNextQueueFile
    dsimp only
    push_cast at hmod
    omega
  | some us =>
    dsimp only at hget ⊢
    cases hscan : s.scan maxMsgNums (some data) (MessageStore.scanned us) {} with
    | error e =>
      rw [hscan] at hget
      exact absurd hget (by simp [Except.map])
    | ok r =>
      rw [hscan] at hget
      obtain rfl := Option.some.inj (Except.ok.inj hget)
      refine kept_scan_iff hr ho hsmall (fun j u hu => ?_) hscan hnext hbody hrecorded
      rw [MessageStore.scanned, List.getElem?_take] at hu
      split at hu
      · rw [entryAt_of_getIndexBuffer (s.whole_queue (topic, queueId)) hbuffer
          (List.getElem?_eq_some_iff.mp hu).1, hu]
      · exact absurd hu (by simp)

/-- **Pulling from a slave.** The callback goes on with what a slave that does not check offsets
answers, and a pull neither skips nor rewinds exactly when the slave has what it needs: the offset
does not lie behind its end, nothing that is asked for lies before its beginning, and its log has
the messages. -/
theorem slave_pull_kept_iff {b : Broker} {requestHeader : PullMessageRequestHeader}
    {brokerAllowSuspend : Bool} {cfg : SubscriptionGroupConfig} {processed : Processed}
    {r : Response} {p p' : PullRequest} {sub : SubscriptionData}
    {msgList : List MessageDecoder.MessageExt}
    (hslave : b.brokerRole = .SLAVE) (hcheck : b.offsetCheckInSlave = false)
    (hr : Replica (requestHeader.topic, requestHeader.queueId) m b.messageStore)
    (ho : (m.queue (requestHeader.topic, requestHeader.queueId)).getMinOffsetInQuque ≤
      requestHeader.queueOffset)
    (hchecked : b.check requestHeader = .ok (cfg, data))
    (hprocess : b.processRequest requestHeader brokerAllowSuspend = .ok processed)
    (hanswer : processed.answer = .response r) (hcallback : p.onSuccess sub msgList r = some p') :
    pullStatus r.code ≠ some .OFFSET_ILLEGAL ∧
      (Kept (requestHeader.topic, requestHeader.queueId) m data requestHeader.queueOffset r.body
          p p' ↔
        Served (requestHeader.topic, requestHeader.queueId) m b.messageStore
          requestHeader.maxMsgNums data requestHeader.queueOffset) := by
  have hstatus : (pullStatus r.code).isSome := by
    obtain ⟨status, hstatus, -⟩ := Option.map_eq_some_iff.mp hcallback
    rw [hstatus]
    rfl
  obtain ⟨result, hget, hnext, hbody, hmoved⟩ :=
    processRequest_spec hchecked hprocess hanswer hstatus
  obtain ⟨hnext', hrecorded⟩ := onSuccess_spec hcallback
  refine ⟨fun hillegal => hmoved hslave hcheck ?_,
    kept_iff hr ho hget (hnext'.trans hnext) hbody hrecorded⟩
  generalize r.code = code at hillegal ⊢
  cases code <;> first | rfl | exact absurd hillegal (by decide)

/-! ### A slave without the queue -/

def oneEntry : CQUnit := ⟨0, 4, 0⟩

lemma pos_20 : 0 < 20 := by decide

/-- A queue of one entry. -/
def oneEntryQueue : ConsumeQueue where
  mapedFileQueue := ⟨20, pos_20, [{
    fileFromOffset := 0
    mappedByteBuffer := [oneEntry]
    wrotePostion := 20 }], 0, 0⟩

/-- A log of one message. -/
def oneMessageLog : MapedFileQueue Bytes :=
  ⟨20, pos_20, [{
    fileFromOffset := 0
    mappedByteBuffer := List.replicate 20 0
    wrotePostion := 4 }], 0, 0⟩

lemma whole_oneEntryQueue : WholeQueue oneEntryQueue where
  chained := ⟨List.isChain_singleton _, by decide, by decide⟩
  dvd := by decide
  mapped := by decide
  wrote := by decide

def testConfig : QueueConfig := ⟨20, pos_20⟩

def oneEntryTable : ConsumeQueueTable := fun key =>
  if key = (['t'], 0) then some oneEntryQueue else none

lemma whole_oneEntryTable (key : Text × Int32) (cq : ConsumeQueue)
    (h : oneEntryTable key = some cq) : WholeQueue cq := by
  unfold oneEntryTable at h
  split at h
  · rw [← Option.some.inj h]
    exact whole_oneEntryQueue
  · exact absurd h (by simp)

lemma chained_oneMessageLog : Chain.Chained oneMessageLog :=
  ⟨List.isChain_singleton _, by decide, by decide⟩

lemma mapped_oneMessageLog : Append.Mapped oneMessageLog := by
  intro f hf
  rw [List.mem_singleton.mp hf]
  rfl

/-- A store with one message in its queue. -/
def oneMessageStore : MessageStore where
  transfer := { memory := 1000 }
  queueConfig := testConfig
  consumeQueueTable := oneEntryTable
  commitLog := oneMessageLog
  whole := whole_oneEntryTable
  chained := chained_oneMessageLog
  mapped := mapped_oneMessageLog

/-- A store without queues and messages. -/
def emptyStore : MessageStore where
  transfer := { memory := 1000 }
  queueConfig := testConfig
  consumeQueueTable := fun _ => none
  commitLog := Chain.empty 20 pos_20
  whole := fun _ _ h => absurd h (Option.some_ne_none _).symm
  chained := Extents.Contiguous.nil
  mapped := fun _ hf => absurd hf List.not_mem_nil

/-- A slave with this store, which lets everyone read. -/
def slaveOf (s : MessageStore) : Broker where
  brokerPermission := PERM_READ
  brokerRole := .SLAVE
  offsetCheckInSlave := false
  longPollingEnable := true
  shortPollingTimeMills := 1000
  findSubscriptionGroupConfig := fun _ => some {}
  selectTopicConfig := fun _ => some {}
  getConsumerGroupInfo := fun _ => none
  consumerOffsetManager := {}
  messageStore := s

/-- A pull of all messages. -/
def pullAt (queueOffset : ℤ) : PullMessageRequestHeader where
  consumerGroup := ['g']
  topic := ['t']
  queueId := 0
  queueOffset := queueOffset
  maxMsgNums := 32
  sysFlag := FLAG_SUSPEND ||| FLAG_SUBSCRIPTION
  commitOffset := 0
  suspendTimeoutMillis := 15000
  subscription := some SUB_ALL
  subVersion := 0

def allMessages : SubscriptionData := { subString := SUB_ALL }

def requestAt (nextOffset : ℤ) : PullRequest where
  nextOffset := nextOffset
  processQueue := {}
  offset := none
  pullFromWhichNode := 0

lemma entry_of_oneMessageStore {i : ℕ} {u : CQUnit}
    (hu : entryAt (oneMessageStore.queue (['t'], 0)) i = some u) : i = 0 ∧ u = oneEntry := by
  have hlt : i < 1 := lt_of_entryAt (oneMessageStore.whole_queue _) hu
  obtain rfl : i = 0 := by omega
  exact ⟨rfl, (Option.some.inj hu).symm⟩

lemma held_oneMessageStore {i : ℕ} {u : CQUnit}
    (hu : entryAt (oneMessageStore.queue (['t'], 0)) i = some u) :
    ∃ r, oneMessageStore.read u = .ok (some r) ∧ (r.startOffset : ℤ) = u.offset.toInt := by
  obtain ⟨-, rfl⟩ := entry_of_oneMessageStore hu
  exact ⟨⟨0, [0, 0, 0, 0]⟩, rfl, rfl⟩

/-- A slave that has everything. -/
lemma replica_oneMessageStore : Replica (['t'], 0) oneMessageStore oneMessageStore where
  held := fun _ _ _ => held_oneMessageStore
  same := fun _ _ _ _ hu => hu
  ordered := by decide

lemma replica_emptyStore : Replica (['t'], 0) oneMessageStore emptyStore where
  held := fun _ _ _ => held_oneMessageStore
  same := fun i u _ _ hu => by
    have hlt : i < 0 := lt_of_entryAt (emptyStore.whole_queue _) hu
    omega
  ordered := by decide

def found : Response where
  code := .SUCCESS
  nextBeginOffset := 1
  maxOffset := 1
  body := [⟨0, [0, 0, 0, 0]⟩]

lemma processRequest_found : (slaveOf oneMessageStore).processRequest (pullAt 0) false =
    .ok ⟨.response found, none, {}⟩ := by
  rfl

lemma onSuccess_found : (requestAt 0).onSuccess allMessages [] found = some (requestAt 1) := rfl

theorem slave_pull_kept_iff_found : pullStatus found.code ≠ some .OFFSET_ILLEGAL ∧
    (Kept (['t'], 0) oneMessageStore allMessages 0 found.body (requestAt 0) (requestAt 1) ↔
      Served (['t'], 0) oneMessageStore oneMessageStore 32 allMessages 0) :=
  slave_pull_kept_iff (b := slaveOf oneMessageStore) (r := found) rfl rfl
    replica_oneMessageStore le_rfl rfl processRequest_found rfl onSuccess_found

def rewound : Response where
  code := .PULL_RETRY_IMMEDIATELY
  nextBeginOffset := 0

lemma processRequest_rewound : (slaveOf emptyStore).processRequest (pullAt 1) false =
    .ok ⟨.response rewound, none, {}⟩ := by
  rfl

/-- A consumer that has got everything asks a slave that has no queue yet, and begins again. -/
theorem slave_pull_rewinds : ¬∀ (b : Broker) (m : MessageStore)
    (requestHeader : PullMessageRequestHeader) (brokerAllowSuspend : Bool)
    (cfg : SubscriptionGroupConfig) (data : SubscriptionData) (processed : Processed)
    (r : Response) (p p' : PullRequest) (sub : SubscriptionData)
    (msgList : List MessageDecoder.MessageExt),
    b.brokerRole = .SLAVE → b.offsetCheckInSlave = false →
    Replica (requestHeader.topic, requestHeader.queueId) m b.messageStore →
    (b.messageStore.queue (requestHeader.topic, requestHeader.queueId)).getMaxOffsetInQuque ≤
      (m.queue (requestHeader.topic, requestHeader.queueId)).getMaxOffsetInQuque →
    (m.queue (requestHeader.topic, requestHeader.queueId)).getMinOffsetInQuque ≤
      requestHeader.queueOffset →
    requestHeader.queueOffset ≤
      (m.queue (requestHeader.topic, requestHeader.queueId)).getMaxOffsetInQuque →
    b.check requestHeader = .ok (cfg, data) →
    b.processRequest requestHeader brokerAllowSuspend = .ok processed →
    processed.answer = .response r → p.onSuccess sub msgList r = some p' →
    Kept (requestHeader.topic, requestHeader.queueId) m data requestHeader.queueOffset r.body
      p p' := by
  intro h
  have hkept := h (slaveOf emptyStore) oneMessageStore (pullAt 1) false {} allMessages _ rewound
    (requestAt 1) _ allMessages [] rfl rfl replica_emptyStore (by decide) (by decide) (by decide)
    rfl processRequest_rewound rfl rfl
  exact absurd hkept.not_rewound (by decide)

end Pulls

end CloudMQ.SlavePulls
