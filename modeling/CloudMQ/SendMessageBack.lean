import CloudMQ.MessageDecoder
import CloudMQ.Properties
import CloudMQ.PullFromWhere
import CloudMQ.SlaveSync

/-!
Sending a message back: `SendMessageProcessor.consumerSendMsgBack`.

The broker finds the message a consumer could not process in its log and puts a copy of it under
the retry topic of the group, to be delivered later; a message that was retried often enough goes
to the topic of the dead letters. What the managers of groups and topics answer is part of the
broker here.
-/

namespace CloudMQ.SendMessageBack

open CloudMQ.Buffer CloudMQ.Utf8 CloudMQ.Strings CloudMQ.Message CloudMQ.Record CloudMQ.CommitLog
open CloudMQ.Topics CloudMQ.TopicManager CloudMQ.SlaveSync CloudMQ.PullFromWhere
open CloudMQ.MessageDecoder CloudMQ.Codec CloudMQ.Properties CloudMQ.Agreement

def PROPERTY_RETRY_TOPIC : Text := "RETRY_TOPIC".toList
def PROPERTY_ORIGIN_MESSAGE_ID : Text := "ORIGIN_MESSAGE_ID".toList

def DLQ_GROUP_TOPIC_PREFIX : Text := "%DLQ%".toList
def DLQ_NUMS_PER_GROUP : Int32 := 1

def getRetryTopic (consumerGroup : Text) : Text := RETRY_GROUP_TOPIC_PREFIX ++ consumerGroup
def getDLQTopic (consumerGroup : Text) : Text := DLQ_GROUP_TOPIC_PREFIX ++ consumerGroup

/-! ### Requests and answers -/

structure ConsumerSendMsgBackRequestHeader where
  offset : Int64
  group : Text
  delayLevel : Int32
  unitMode : Bool

/-- `TopicSysFlag.buildSysFlag`. -/
def buildSysFlag (unit hasUnitSub : Bool) : Int32 :=
  (if unit then FLAG_UNIT else 0) ||| (if hasUnitSub then FLAG_UNIT_SUB else 0)

/-- The flag of a retry topic that the request creates. -/
def ConsumerSendMsgBackRequestHeader.topicSysFlag
    (requestHeader : ConsumerSendMsgBackRequestHeader) : Int32 :=
  if requestHeader.unitMode then buildSysFlag false true else 0

inductive ResponseCode | SUCCESS | SYSTEM_ERROR | SUBSCRIPTION_GROUP_NOT_EXIST | NO_PERMISSION
  deriving DecidableEq, Repr

structure RemotingCommand where
  code : ResponseCode
  remark : Option Text
  deriving DecidableEq

/-- What the processor asks of the broker. -/
structure Broker where
  findSubscriptionGroupConfig : Text → Option SubscriptionGroupConfig
  brokerPermission : Int32
  brokerIP1 : Text
  /-- by topic, number of queues, permission and flag -/
  createTopicInSendMessageBackMethod : Text → Int32 → Int32 → Int32 → Option TopicConfig
  lookMessageByOffset : Int64 → Except Unit (Option MessageExt)
  storeHost : InetSocketAddress
  /-- the two readings of the random generator -/
  nextInt1 : Int32
  nextInt2 : Int32
  entryOrder : EntryOrder

def SUBSCRIPTION_GROUP_NOT_EXIST : Text := "https://github.com/alibaba/RocketMQ/issues/42".toList

def suggestTodo (url : Text) : Text := "\nSee ".toList ++ url ++ " for further details.".toList

/-- `String.valueOf(long)`. -/
def valueOfLong (n : Int64) : Text :=
  if n.toInt < 0 then '-' :: Nat.toDigits 10 n.toInt.natAbs else Nat.toDigits 10 n.toInt.natAbs

def groupNotExist (group : Text) : RemotingCommand :=
  ⟨.SUBSCRIPTION_GROUP_NOT_EXIST, some ("subscription group not exist, ".toList ++ group ++
    " ".toList ++ suggestTodo SUBSCRIPTION_GROUP_NOT_EXIST)⟩

def brokerForbidden (brokerIP1 : Text) : RemotingCommand :=
  ⟨.NO_PERMISSION,
    some ("the broker[".toList ++ brokerIP1 ++ "] sending message is forbidden".toList)⟩

def topicNotExist (topic : Text) : RemotingCommand :=
  ⟨.SYSTEM_ERROR, some ("topic[".toList ++ topic ++ "] not exist".toList)⟩

def topicForbidden (topic : Text) : RemotingCommand :=
  ⟨.NO_PERMISSION, some ("the topic[".toList ++ topic ++ "] sending message is forbidden".toList)⟩

def lookFailed (offset : Int64) : RemotingCommand :=
  ⟨.SYSTEM_ERROR, some ("look message by offset failed, ".toList ++ valueOfLong offset)⟩

def randomQueueId (nextInt queueNums : Int32) : Int32 := (nextInt % 99999999).abs % queueNums

/-! ### The copy -/

/-- The identifier the decoder gives a message. -/
def getMsgId (msgExt : MessageExt) : Text :=
  bytes2string ((SocketAddress2ByteBuffer msgExt.storeHost).getD [] ++
    putLong msgExt.commitLogOffset)

/-- The identifier the message had at first. -/
def originMsgId (msgExt : MessageExt) : Text :=
  match msgExt.getProperty PROPERTY_ORIGIN_MESSAGE_ID with
  | some id => if isBlank id then getMsgId msgExt else id
  | none => getMsgId msgExt

/-- The message remembers its topic, if it does not already, and is not waited for. -/
def retryProperties (msgExt : MessageExt) : Props :=
  (match msgExt.getProperty PROPERTY_RETRY_TOPIC with
    | none => msgExt.properties.put PROPERTY_RETRY_TOPIC msgExt.topic
    | some _ => msgExt.properties).put PROPERTY_WAIT_STORE_MSG_OK "false".toList

/-- The copy that is put. The properties string is made before the identifier is set. -/
def msgInner (b : Broker) (msgExt : MessageExt) (topic : Text) (queueIdInt : Int32)
    (properties : Props) : MessageExtBrokerInner where
  topic := topic
  flag := msgExt.flag
  properties := properties.put PROPERTY_ORIGIN_MESSAGE_ID (originMsgId msgExt)
  body := msgExt.body
  queueId := queueIdInt
  queueOffset := 0
  sysFlag := msgExt.sysFlag
  bornTimestamp := msgExt.bornTimestamp
  bornHost := msgExt.bornHost
  storeTimestamp := 0
  storeHost := b.storeHost
  bodyCRC := 0
  reconsumeTimes := msgExt.reconsumeTimes + 1
  preparedTransactionOffset := 0
  propertiesString := some (messageProperties2String b.entryOrder properties)
  tagsCode := tagsString2tagsCode .SINGLE_TAG (properties.get PROPERTY_TAGS)

/-- Without a level of the consumer's, the level grows with the number of times. -/
def retryLevel (delayLevel reconsumeTimes : Int32) : Int32 :=
  if delayLevel = 0 then 3 + reconsumeTimes else delayLevel

/-- The copy for the retry topic. -/
def retryInner (b : Broker) (requestHeader : ConsumerSendMsgBackRequestHeader)
    (c : SubscriptionGroupConfig) (msgExt : MessageExt) : MessageExtBrokerInner :=
  msgInner b msgExt (getRetryTopic requestHeader.group) (randomQueueId b.nextInt1 c.retryQueueNums)
    ((retryProperties msgExt).put PROPERTY_DELAY_TIME_LEVEL
      (valueOf (retryLevel requestHeader.delayLevel msgExt.reconsumeTimes)))

/-- The copy for the dead letters; a delay level of the message stays. -/
def deadInner (b : Broker) (requestHeader : ConsumerSendMsgBackRequestHeader)
    (msgExt : MessageExt) : MessageExtBrokerInner :=
  msgInner b msgExt (getDLQTopic requestHeader.group) (randomQueueId b.nextInt2 DLQ_NUMS_PER_GROUP)
    (retryProperties msgExt)

/-- No more retries. -/
def Dead (requestHeader : ConsumerSendMsgBackRequestHeader) (c : SubscriptionGroupConfig)
    (msgExt : MessageExt) : Prop :=
  c.retryMaxTimes ≤ msgExt.reconsumeTimes ∨ requestHeader.delayLevel < 0

instance (requestHeader : ConsumerSendMsgBackRequestHeader) (c : SubscriptionGroupConfig)
    (msgExt : MessageExt) : Decidable (Dead requestHeader c msgExt) :=
  inferInstanceAs (Decidable (_ ∨ _))

/-! ### The processor -/

/-- What a request comes to before the store is called. -/
inductive SentBack
  | thrown
  | answered (response : RemotingCommand)
  | put (m : MessageExtBrokerInner)

/-- The message was found. -/
def sendFound (b : Broker) (requestHeader : ConsumerSendMsgBackRequestHeader)
    (c : SubscriptionGroupConfig) (msgExt : MessageExt) : SentBack :=
  if Dead requestHeader c msgExt then
    let newTopic := getDLQTopic requestHeader.group
    match b.createTopicInSendMessageBackMethod newTopic DLQ_NUMS_PER_GROUP PERM_WRITE 0 with
    | none => .answered (topicNotExist newTopic)
    | some _ => .put (deadInner b requestHeader msgExt)
  else .put (retryInner b requestHeader c msgExt)

/-- Up to the call of the store. -/
def sendBack (b : Broker) (requestHeader : ConsumerSendMsgBackRequestHeader) : SentBack :=
  match b.findSubscriptionGroupConfig requestHeader.group with
  | none => .answered (groupNotExist requestHeader.group)
  | some c =>
    if !isWriteable b.brokerPermission then .answered (brokerForbidden b.brokerIP1)
    -- a group without retry queues drops the message
    else if c.retryQueueNums ≤ 0 then .answered ⟨.SUCCESS, none⟩
    else
      let newTopic := getRetryTopic requestHeader.group
      match b.createTopicInSendMessageBackMethod newTopic c.retryQueueNums
          (PERM_WRITE ||| PERM_READ) requestHeader.topicSysFlag with
      | none => .answered (topicNotExist newTopic)
      | some topicConfig =>
        if !isWriteable topicConfig.perm then .answered (topicForbidden newTopic)
        else match b.lookMessageByOffset requestHeader.offset with
          | .error _ => .thrown
          | .ok none => .answered (lookFailed requestHeader.offset)
          | .ok (some msgExt) => sendFound b requestHeader c msgExt

def statusName : PutMessageStatus → Text
  | .PUT_OK => "PUT_OK".toList
  | .FLUSH_DISK_TIMEOUT => "FLUSH_DISK_TIMEOUT".toList
  | .FLUSH_SLAVE_TIMEOUT => "FLUSH_SLAVE_TIMEOUT".toList
  | .SLAVE_NOT_AVAILABLE => "SLAVE_NOT_AVAILABLE".toList
  | .SERVICE_NOT_AVAILABLE => "SERVICE_NOT_AVAILABLE".toList
  | .CREATE_MAPEDFILE_FAILED => "CREATE_MAPEDFILE_FAILED".toList
  | .MESSAGE_ILLEGAL => "MESSAGE_ILLEGAL".toList
  | .UNKNOWN_ERROR => "UNKNOWN_ERROR".toList

/-- The answer to what the store says. -/
def putResponse (status : PutMessageStatus) : RemotingCommand :=
  if status = .PUT_OK then ⟨.SUCCESS, none⟩ else ⟨.SYSTEM_ERROR, some (statusName status)⟩

def consumerSendMsgBack (cfg : MessageStoreConfig) (env : Env) (b : Broker)
    (requestHeader : ConsumerSendMsgBackRequestHeader) (s : Store) :
    Store × Except Unit RemotingCommand :=
  match sendBack b requestHeader with
  | .thrown => (s, .error ())
  | .answered response => (s, .ok response)
  | .put m =>
    let (s, r) := s.putMessage cfg env m
    (s, match r with
      | .error _ => .error ()
      | .ok put => .ok (putResponse put.result.putMessageStatus))

/-! ### What is put -/

variable {b : Broker} {requestHeader : ConsumerSendMsgBackRequestHeader}
  {m : MessageExtBrokerInner} {msgExt : MessageExt}

/-- A message is put for the group's own configuration and the message that was found. -/
lemma sendBack_put (h : sendBack b requestHeader = .put m) :
    ∃ c msgExt, b.findSubscriptionGroupConfig requestHeader.group = some c ∧
      b.lookMessageByOffset requestHeader.offset = .ok (some msgExt) ∧
      m = if Dead requestHeader c msgExt then deadInner b requestHeader msgExt
        else retryInner b requestHeader c msgExt := by
  unfold sendBack at h
  cases hc : b.findSubscriptionGroupConfig requestHeader.group with
  | none => rw [hc] at h; cases h
  | some c =>
    rw [hc] at h
    dsimp only at h
    split_ifs at h
    split at h
    · cases h
    · split_ifs at h
      cases hlook : b.lookMessageByOffset requestHeader.offset with
      | error _ => rw [hlook] at h; cases h
      | ok found =>
        cases found with
        | none => rw [hlook] at h; cases h
        | some msgExt =>
          rw [hlook] at h
          refine ⟨c, msgExt, rfl, rfl, ?_⟩
          dsimp only [sendFound] at h
          split_ifs at h ⊢ with hdead
          · split at h
            · cases h
            · injection h with h
              exact h.symm
          · injection h with h
            exact h.symm

/-! ### The identifier -/

lemma hexDigit_not_whitespace {n : ℕ} (h : n < 16) : isWhitespace (hexDigit n) = false := by
  interval_cases n <;> decide

/-- The identifier of a message is not blank. -/
lemma isBlank_getMsgId (msgExt : MessageExt) : isBlank (getMsgId msgExt) = false := by
  have hlen : 0 < ((SocketAddress2ByteBuffer msgExt.storeHost).getD [] ++
      putLong msgExt.commitLogOffset).length := by
    rw [List.length_append, length_putLong]
    omega
  obtain ⟨byte, bytes, hbytes⟩ := List.exists_cons_of_length_pos hlen
  rw [isBlank, getMsgId, hbytes, bytes2string, List.flatMap_cons, List.all_append,
    List.all_cons, hexDigit_not_whitespace (by have := byte.toNat_lt; omega), Bool.false_and,
    Bool.false_and]

lemma hexDigit_clean {n : ℕ} (h : n < 16) :
    hexDigit n ≠ NAME_VALUE_SEPARATOR ∧ hexDigit n ≠ PROPERTY_SEPARATOR := by
  interval_cases n <;> decide

lemma clean_getMsgId (msgExt : MessageExt) : CleanValue (getMsgId msgExt) := by
  have hchar : ∀ c ∈ getMsgId msgExt, c ≠ NAME_VALUE_SEPARATOR ∧ c ≠ PROPERTY_SEPARATOR := by
    intro c hc
    obtain ⟨byte, -, hbyte⟩ := List.mem_flatMap.mp hc
    have hlt := byte.toNat_lt
    rcases List.mem_cons.mp hbyte with rfl | hbyte
    · exact hexDigit_clean (by omega)
    · rw [List.mem_singleton.mp hbyte]
      exact hexDigit_clean (by omega)
  refine ⟨fun hmem => (hchar _ hmem).1 rfl, fun hmem => (hchar _ hmem).2 rfl, fun hnil => ?_⟩
  have hblank := isBlank_getMsgId msgExt
  rw [hnil] at hblank
  cases hblank

lemma isBlank_originMsgId (msgExt : MessageExt) : isBlank (originMsgId msgExt) = false := by
  unfold originMsgId
  split
  · split
    · exact isBlank_getMsgId msgExt
    · next hblank => exact Bool.eq_false_iff.mpr hblank
  · exact isBlank_getMsgId msgExt

lemma clean_originMsgId (h : CleanProps msgExt.properties) : CleanValue (originMsgId msgExt) := by
  unfold originMsgId
  split
  · next id hid =>
    split
    · exact clean_getMsgId msgExt
    · exact h.value hid
  · exact clean_getMsgId msgExt

/-! ### How a message is stored -/

variable {cfg : MessageStoreConfig} {env : Env} {record : MessageExtBrokerInner} {level : Int32}

lemma stored_eq : stored cfg env m = (isDelayed m).bind fun delayed =>
    if delayed then (redirect cfg env.entryOrder (checksum env m)).map fun p => stamp env p.1
    else some (stamp env (checksum env m)) := by
  have hdelayed : isDelayed (checksum env m) = isDelayed m := rfl
  rw [stored, prepare, hdelayed]
  cases isDelayed m with
  | none => rfl
  | some delayed => cases delayed <;> rfl

/-- A message without a delay is stored as it is. -/
lemma stored_at_once (h : isDelayed m = some false) :
    stored cfg env m = some (stamp env (checksum env m)) := by
  rw [stored_eq, h]
  rfl

/-- A delayed message goes to the schedule topic, whatever its topic is. -/
lemma topic_of_delayed (h : isDelayed m = some true) (hstored : stored cfg env m = some record) :
    record.topic = SCHEDULE_TOPIC := by
  rw [stored_eq, h] at hstored
  obtain ⟨⟨m', tagsCode⟩, hredirect, rfl⟩ := Option.map_eq_some_iff.mp hstored
  simp only [redirect, Option.bind_eq_bind, Option.bind_eq_some_iff] at hredirect
  obtain ⟨level, -, level', -, hredirect⟩ := hredirect
  simp only [Option.pure_def, Option.some.injEq, Prod.mk.injEq] at hredirect
  rw [← hredirect.1]
  rfl

lemma get_storedProps {order : EntryOrder} {p : Props} (hclean : CleanProps p)
    (hwritten : record.propertiesString = some (messageProperties2String order p)) (name : Text) :
    (storedProps record).get name = p.get name := by
  rw [storedProps, hwritten, Option.getD_some]
  exact get_roundTrip hclean name

/-- The names that the store writes on a message with a delay. -/
def scheduleNames : List Text :=
  [PROPERTY_DELAY_TIME_LEVEL, PROPERTY_REAL_TOPIC, PROPERTY_REAL_QUEUE_ID]

lemma clean_valueOf (n : Int32) : CleanValue (valueOf n) := by
  obtain ⟨hne, hsep, hend⟩ := parseInt_chars (parseInt_valueOf_self n)
  exact ⟨hsep, hend, hne⟩

/-- A message with a delay, as it is written to the schedule topic. -/
structure Redirected (env : Env) (m record : MessageExtBrokerInner) : Prop where
  topic : record.topic = SCHEDULE_TOPIC
  flag : record.flag = m.flag
  body : record.body = m.body
  sysFlag : record.sysFlag = m.sysFlag
  bornTimestamp : record.bornTimestamp = m.bornTimestamp
  bornHost : record.bornHost = m.bornHost
  storeHost : record.storeHost = m.storeHost
  reconsumeTimes : record.reconsumeTimes = m.reconsumeTimes
  written : record.propertiesString = some (messageProperties2String env.entryOrder
    record.properties)
  realTopic : record.properties.get PROPERTY_REAL_TOPIC = some m.topic
  realQueueId : record.properties.get PROPERTY_REAL_QUEUE_ID = some (valueOf m.queueId)
  other : ∀ name ∉ scheduleNames, record.properties.get name = m.properties.get name
  clean : CleanProps m.properties → CleanValue m.topic → CleanProps record.properties

/-- **Redirecting.** A level above the highest is written anew. -/
lemma redirected_of_delayed (hdelayed : isDelayed m = some true)
    (hstored : stored cfg env m = some record) :
    Redirected env m record ∧ ∃ level, m.getDelayTimeLevel = some level ∧
      record.properties.get PROPERTY_DELAY_TIME_LEVEL =
        if level > cfg.scheduleMessageService.getMaxDelayLevel then
          some (valueOf cfg.scheduleMessageService.getMaxDelayLevel)
        else m.properties.get PROPERTY_DELAY_TIME_LEVEL := by
  rw [stored_eq, hdelayed] at hstored
  obtain ⟨⟨m', tagsCode⟩, hredirect, rfl⟩ := Option.map_eq_some_iff.mp hstored
  simp only [redirect, Option.bind_eq_bind, Option.bind_eq_some_iff] at hredirect
  obtain ⟨level, h1, level₂, -, hredirect⟩ := hredirect
  simp only [Option.pure_def, Option.some.injEq, Prod.mk.injEq] at hredirect
  obtain ⟨rfl, -⟩ := hredirect
  -- the message with the level it is redirected with
  have hcapped : ∀ m₁ : MessageExtBrokerInner,
      m₁ = (if level > cfg.scheduleMessageService.getMaxDelayLevel then
          (checksum env m).setDelayTimeLevel cfg.scheduleMessageService.getMaxDelayLevel
        else checksum env m) →
      m₁ = { checksum env m with properties := m₁.properties } ∧
      m₁.properties.get PROPERTY_DELAY_TIME_LEVEL =
        (if level > cfg.scheduleMessageService.getMaxDelayLevel then
          some (valueOf cfg.scheduleMessageService.getMaxDelayLevel)
        else m.properties.get PROPERTY_DELAY_TIME_LEVEL) ∧
      (∀ name ≠ PROPERTY_DELAY_TIME_LEVEL, m₁.properties.get name = m.properties.get name) ∧
      (CleanProps m.properties → CleanProps m₁.properties) := by
    rintro m₁ rfl
    split_ifs with hbig
    · refine ⟨rfl, Props.get_put_self _ _ _, fun name hname => ?_,
        fun hclean => hclean.put (by decide) (clean_valueOf _)⟩
      exact Props.get_put_of_ne _ (Ne.symm hname)
    · exact ⟨rfl, rfl, fun _ _ => rfl, id⟩
  generalize hm₁ : (if level > cfg.scheduleMessageService.getMaxDelayLevel then
    (checksum env m).setDelayTimeLevel cfg.scheduleMessageService.getMaxDelayLevel
    else checksum env m) = m₁
  obtain ⟨hsame, hdelay, hother, hclean⟩ := hcapped m₁ hm₁.symm
  have htopic : m₁.topic = m.topic := congrArg (·.topic) hsame
  have hqueueId : m₁.queueId = m.queueId := congrArg (·.queueId) hsame
  refine ⟨⟨rfl, congrArg (·.flag) hsame, congrArg (·.body) hsame, congrArg (·.sysFlag) hsame,
    congrArg (·.bornTimestamp) hsame, congrArg (·.bornHost) hsame, congrArg (·.storeHost) hsame,
    congrArg (·.reconsumeTimes) hsame, rfl, ?_, ?_, fun name hname => ?_,
    fun hm htopicClean => ?_⟩, level, h1, ?_⟩
  · exact (Props.get_put_of_ne _ (by decide)).trans
      ((Props.get_put_self _ _ _).trans (congrArg some htopic))
  · exact (Props.get_put_self _ _ _).trans (congrArg (fun n => some (valueOf n)) hqueueId)
  · simp only [scheduleNames, List.mem_cons, List.not_mem_nil, or_false, not_or] at hname
    exact (Props.get_put_of_ne _ (Ne.symm hname.2.2)).trans
      ((Props.get_put_of_ne _ (Ne.symm hname.2.1)).trans (hother name hname.1))
  · exact ((hclean hm).put (by decide) (htopic ▸ htopicClean)).put (by decide) (clean_valueOf _)
  · exact (Props.get_put_of_ne _ (by decide)).trans
      ((Props.get_put_of_ne _ (by decide)).trans hdelay)

/-- A message with a level, as it waits in the schedule topic. -/
structure Waiting (cfg : MessageStoreConfig) (env : Env) (m record : MessageExtBrokerInner)
    (level : Int32) : Prop where
  topic : record.topic = SCHEDULE_TOPIC
  flag : record.flag = m.flag
  body : record.body = m.body
  sysFlag : record.sysFlag = m.sysFlag
  reconsumeTimes : record.reconsumeTimes = m.reconsumeTimes
  written : record.propertiesString = some (messageProperties2String env.entryOrder
    record.properties)
  delay : record.properties.get PROPERTY_DELAY_TIME_LEVEL =
    some (valueOf (cfg.scheduleMessageService.capLevel level))
  realTopic : record.properties.get PROPERTY_REAL_TOPIC = some m.topic
  realQueueId : record.properties.get PROPERTY_REAL_QUEUE_ID = some (valueOf m.queueId)
  other : ∀ name ∉ scheduleNames, record.properties.get name = m.properties.get name
  clean : CleanProps m.properties → CleanValue m.topic → CleanProps record.properties

/-- **A message with a level waits.** -/
lemma waiting_of_delayed (hdelayed : isDelayed m = some true)
    (hlevel : m.properties.get PROPERTY_DELAY_TIME_LEVEL = some (valueOf level))
    (hstored : stored cfg env m = some record) : Waiting cfg env m record level := by
  obtain ⟨h, level₁, h1, hdelay⟩ := redirected_of_delayed hdelayed hstored
  obtain rfl : level = level₁ := by
    have hget : m.getDelayTimeLevel = parseInt (valueOf level) := by
      simp only [MessageExtBrokerInner.getDelayTimeLevel, MessageExtBrokerInner.getProperty, hlevel]
    rw [hget, parseInt_valueOf_self, Option.some.injEq] at h1
    exact h1
  refine ⟨h.topic, h.flag, h.body, h.sysFlag, h.reconsumeTimes, h.written, ?_, h.realTopic,
    h.realQueueId, h.other, h.clean⟩
  rw [hdelay, hlevel, ScheduleMessageService.capLevel]
  split_ifs
  · rfl
  · rfl

end CloudMQ.SendMessageBack
