import CloudMQ.RetryChain

/-!
The two ways back: the broker's copy of a message, and the one the consumer sends itself when it
cannot reach the broker.

The consumer copies the properties of the message over the identifier it has just set, counts the
retry before it computes the level, and loses the number of retries with the first attempt that
gets as far as a request. So the two copies agree for messages that were retried often enough for
both levels to be the highest, and that have their identifier from a retry before.
-/

namespace CloudMQ.SendBackPaths

open CloudMQ.Buffer CloudMQ.Utf8 CloudMQ.Strings CloudMQ.Message CloudMQ.Record CloudMQ.Codec
open CloudMQ.CommitLog CloudMQ.Topics CloudMQ.Agreement CloudMQ.Properties CloudMQ.PullFromWhere
open CloudMQ.MessageDecoder CloudMQ.SendMessageBack CloudMQ.RetryChain

def PROPERTY_TRANSACTION_PREPARED : Text := "TRAN_MSG".toList
def PROPERTY_MIN_OFFSET : Text := "MIN_OFFSET".toList
def PROPERTY_MAX_OFFSET : Text := "MAX_OFFSET".toList
def PROPERTY_RECONSUME_TIME : Text := "RECONSUME_TIME".toList

def CompressedFlag : Int32 := 1

/-- `Boolean.parseBoolean`. -/
def parseBoolean (t : Text) : Bool := t.map Char.toLower == "true".toList

/-! ### The consumed message -/

section Consumer

variable (unzip : ByteArr → Option ByteArr)

/-- `UtilAll.uncompress` of a compressed body. A body that cannot be read is an exception. -/
def uncompressBody (m : MessageExt) : Option (Option ByteArr) :=
  match m.body with
  | none => some none
  | some body =>
    if m.sysFlag &&& CompressedFlag = CompressedFlag then (unzip body).map some
    else some (some body)

/-- The message of a pull answer, with the offsets of the answer. -/
def pulled (minOffset maxOffset : Int64) (m : MessageExt) : Option MessageExt :=
  (uncompressBody unzip m).map fun body =>
    { m with
      body := body
      properties := (m.properties.put PROPERTY_MIN_OFFSET (valueOfLong minOffset)).put
        PROPERTY_MAX_OFFSET (valueOfLong maxOffset) }

/-- A copy from the retry topic gets its own topic back. -/
def resetRetryTopic (consumerGroup : Text) (msg : MessageExt) : MessageExt :=
  match msg.getProperty PROPERTY_RETRY_TOPIC with
  | some retryTopic =>
    if getRetryTopic consumerGroup = msg.topic then { msg with topic := retryTopic } else msg
  | none => msg

/-- The message as the listener gets it. -/
def consumed (consumerGroup : Text) (minOffset maxOffset : Int64) (m : MessageExt) :
    Option MessageExt :=
  (pulled unzip minOffset maxOffset m).map (resetRetryTopic consumerGroup)

end Consumer

/-! ### The copy of the consumer -/

/-- A `Message`. -/
structure ClientMessage where
  topic : Text
  flag : Int32
  properties : Props
  body : Option ByteArr

namespace ClientMessage

/-- `new Message(topic, body)`. -/
def new (topic : Text) (body : Option ByteArr) : ClientMessage :=
  ⟨topic, 0, Props.empty.put PROPERTY_WAIT_STORE_MSG_OK "true".toList, body⟩

def putProperty (msg : ClientMessage) (name value : Text) : ClientMessage :=
  { msg with properties := msg.properties.put name value }

def getProperty (msg : ClientMessage) (name : Text) : Option Text := msg.properties.get name

def clearProperty (msg : ClientMessage) (name : Text) : ClientMessage :=
  { msg with properties := msg.properties.erase name }

end ClientMessage

/-- `DefaultMQPushConsumerImpl.sendMessageBack`, after the call of the broker failed. -/
def sendMessageBack (consumerGroup : Text) (msg : MessageExt) : ClientMessage :=
  let newMsg := ClientMessage.new (getRetryTopic consumerGroup) msg.body
  let newMsg := newMsg.putProperty PROPERTY_ORIGIN_MESSAGE_ID (originMsgId msg)
  -- these take the place of the properties set so far
  let newMsg := { newMsg with flag := msg.flag, properties := msg.properties }
  let newMsg := newMsg.putProperty PROPERTY_RETRY_TOPIC msg.topic
  let reTimes := msg.reconsumeTimes + 1
  let newMsg := newMsg.putProperty PROPERTY_RECONSUME_TIME (valueOf reTimes)
  newMsg.putProperty PROPERTY_DELAY_TIME_LEVEL (valueOf (3 + reTimes))

/-! ### Sending it -/

def CHARACTER_MAX_LENGTH : ℕ := 255

def DEFAULT_TOPIC : Text := "MY_DEFAULT_TOPIC".toList

/-- A character of `[%|a-zA-Z0-9_-]`. -/
def validChar (c : Char) : Bool :=
  c = '%' || c = '|' || ('a' ≤ c && c ≤ 'z') || ('A' ≤ c && c ≤ 'Z') || ('0' ≤ c && c ≤ '9') ||
    c = '_' || c = '-'

def regularExpressionMatcher (origin : Text) : Bool := !origin.isEmpty && origin.all validChar

def checkTopic (topic : Text) : Bool :=
  !isBlank topic && regularExpressionMatcher topic &&
    decide (length topic ≤ CHARACTER_MAX_LENGTH) && topic != DEFAULT_TOPIC

/-- The settings of the producer; `zip` is `UtilAll.compress`. -/
structure Producer where
  maxMessageSize : ℕ
  compressMsgBodyOverHowmuch : ℕ
  zip : ByteArr → Option ByteArr

def checkBody (p : Producer) (body : Option ByteArr) : Bool :=
  body.any fun b => 0 < b.val.length && decide (b.val.length ≤ p.maxMessageSize)

def checkMessage (p : Producer) (msg : ClientMessage) : Bool :=
  checkTopic msg.topic && checkBody p msg.body

structure SendMessageRequestHeader where
  topic : Text
  queueId : Int32
  sysFlag : Int32
  bornTimestamp : Int64
  flag : Int32
  properties : Text
  reconsumeTimes : Int32

/-- One attempt: whether the address of the broker is found, the queue, the clock, and the order of
the properties. -/
structure Attempt where
  found : Bool
  queueId : Int32
  bornTimestamp : Int64
  entryOrder : EntryOrder

/-- The body as it is sent, and whether it is compressed. The message gets its own body back. -/
def tryToCompressMessage (p : Producer) (msg : ClientMessage) : Option ByteArr × Bool :=
  match msg.body with
  | none => (none, false)
  | some body =>
    if p.compressMsgBodyOverHowmuch ≤ body.val.length then
      match p.zip body with
      | some data => (some data, true)
      | none => (some body, false)
    else (some body, false)

def sysFlagOf (compressed prepared : Bool) : Int32 :=
  (if compressed then CompressedFlag else 0) ||| (if prepared then TransactionPreparedType else 0)

/-- `Boolean.parseBoolean` of the property, if it is there. -/
def isPrepared (p : Props) : Bool := (p.get PROPERTY_TRANSACTION_PREPARED).any parseBoolean

/-- `sendKernelImpl`, with what it leaves of the message: the request, or none if it throws. The
properties string is made before the number of retries is taken out. -/
def sendKernelImpl (p : Producer) (a : Attempt) (msg : ClientMessage) :
    ClientMessage × Option (SendMessageRequestHeader × Option ByteArr) :=
  if a.found then
    let (body, compressed) := tryToCompressMessage p msg
    let requestHeader : SendMessageRequestHeader := {
      topic := msg.topic
      queueId := a.queueId
      sysFlag := sysFlagOf compressed (isPrepared msg.properties)
      bornTimestamp := a.bornTimestamp
      flag := msg.flag
      properties := messageProperties2String a.entryOrder msg.properties
      reconsumeTimes := 0 }
    if RETRY_GROUP_TOPIC_PREFIX.isPrefixOf msg.topic then
      match msg.getProperty PROPERTY_RECONSUME_TIME with
      | none => (msg, some (requestHeader, body))
      | some reconsumeTimes =>
        match parseInt reconsumeTimes with
        | none => (msg, none)
        | some n => (msg.clearProperty PROPERTY_RECONSUME_TIME,
            some ({ requestHeader with reconsumeTimes := n }, body))
    else (msg, some (requestHeader, body))
  else (msg, none)

/-- `sendDefaultImpl`: the request of the attempt that succeeds, after the ones that failed. -/
def send (p : Producer) (earlier : List Attempt) (last : Attempt) (msg : ClientMessage) :
    Option (SendMessageRequestHeader × Option ByteArr) :=
  if checkMessage p msg then
    (sendKernelImpl p last (earlier.foldl (fun msg a => (sendKernelImpl p a msg).1) msg)).2
  else none

/-! ### Storing it -/

/-- What `sendMessage` knows of the broker and of the channel, for a topic that passed the
checks. -/
structure Receiver where
  topicConfig : TopicConfig
  rejectTransactionMessage : Bool
  nextInt : Int32
  bornHost : InetSocketAddress
  storeHost : InetSocketAddress

/-- The message a broker makes of a request. -/
def buildInnerMsg (r : Receiver) (requestHeader : SendMessageRequestHeader)
    (body : Option ByteArr) : MessageExtBrokerInner where
  topic := requestHeader.topic
  flag := requestHeader.flag
  properties := string2messageProperties requestHeader.properties
  body := body
  queueId := if requestHeader.queueId < 0 then
      randomQueueId r.nextInt r.topicConfig.writeQueueNums
    else requestHeader.queueId
  queueOffset := 0
  sysFlag := if r.topicConfig.topicFilterType = .MULTI_TAG then
      requestHeader.sysFlag ||| MultiTagsFlag
    else requestHeader.sysFlag
  bornTimestamp := requestHeader.bornTimestamp
  bornHost := r.bornHost
  storeTimestamp := 0
  storeHost := r.storeHost
  bodyCRC := 0
  reconsumeTimes := requestHeader.reconsumeTimes
  preparedTransactionOffset := 0
  propertiesString := some requestHeader.properties
  tagsCode := tagsString2tagsCode .SINGLE_TAG
    ((string2messageProperties requestHeader.properties).get PROPERTY_TAGS)

/-- `SendMessageProcessor.sendMessage`, up to the call of the store; `none` is a refusal. -/
def sendMessage (r : Receiver) (requestHeader : SendMessageRequestHeader) (body : Option ByteArr) :
    Option MessageExtBrokerInner :=
  let msgInner := buildInnerMsg r requestHeader body
  if r.rejectTransactionMessage && (msgInner.getProperty PROPERTY_TRANSACTION_PREPARED).isSome then
    none
  else some msgInner

/-- What the consumer's copy comes to at the store. -/
def fallback (p : Producer) (r : Receiver) (consumerGroup : Text) (earlier : List Attempt)
    (last : Attempt) (msg : MessageExt) : Option MessageExtBrokerInner :=
  (send p earlier last (sendMessageBack consumerGroup msg)).bind fun request =>
    sendMessage r request.1 request.2

/-! ### Comparing the records -/

/-- The content of a body. -/
def contentOf (unzip : ByteArr → Option ByteArr) (record : MessageExtBrokerInner) :
    Option ByteArr :=
  if record.sysFlag &&& CompressedFlag = CompressedFlag then record.body.bind unzip
  else record.body

/-- The two records stand for the same retry. -/
structure SameRetry (unzip : ByteArr → Option ByteArr) (a b : MessageExtBrokerInner) : Prop where
  topic : b.topic = a.topic
  realTopic : (storedProps b).get PROPERTY_REAL_TOPIC = (storedProps a).get PROPERTY_REAL_TOPIC
  body : contentOf unzip b = contentOf unzip a
  flag : b.flag = a.flag
  reconsumeTimes : b.reconsumeTimes = a.reconsumeTimes
  level : (storedProps b).get PROPERTY_DELAY_TIME_LEVEL =
    (storedProps a).get PROPERTY_DELAY_TIME_LEVEL
  retryTopic : (storedProps b).get PROPERTY_RETRY_TOPIC = (storedProps a).get PROPERTY_RETRY_TOPIC
  originMessageId : (storedProps b).get PROPERTY_ORIGIN_MESSAGE_ID =
    (storedProps a).get PROPERTY_ORIGIN_MESSAGE_ID

/-- **The two ways agree**: both lead to a record, of the same retry. -/
def Agree (unzip : ByteArr → Option ByteArr) (sentBack sent : Option MessageExtBrokerInner) :
    Prop :=
  ∃ a b, sentBack = some a ∧ sent = some b ∧ SameRetry unzip a b

/-! ### The properties of the copy -/

variable {m msg : MessageExt} {group : Text} {p : Producer} {r : Receiver}
  {unzip : ByteArr → Option ByteArr}

lemma clean_valueOfLong (n : Int64) : CleanValue (valueOfLong n) := by
  have hdigit : ∀ c ∈ Nat.toDigits 10 n.toInt.natAbs, c.isDigit := fun c hc =>
    Nat.isDigit_of_mem_toDigits (by omega) (by omega) hc
  have hsep : NAME_VALUE_SEPARATOR ∉ Nat.toDigits 10 n.toInt.natAbs := fun h =>
    absurd (hdigit _ h) (by decide)
  have hend : PROPERTY_SEPARATOR ∉ Nat.toDigits 10 n.toInt.natAbs := fun h =>
    absurd (hdigit _ h) (by decide)
  unfold valueOfLong
  split_ifs
  · exact ⟨List.not_mem_cons_of_ne_of_not_mem (by decide) hsep,
      List.not_mem_cons_of_ne_of_not_mem (by decide) hend, List.cons_ne_nil _ _⟩
  · exact ⟨hsep, hend, Nat.toDigits_ne_nil⟩

/-- The names the client writes on a message that it pulls. -/
def pullNames : List Text := [PROPERTY_MIN_OFFSET, PROPERTY_MAX_OFFSET]

/-- What the consumer has of the message in the log. -/
structure ConsumedAs (unzip : ByteArr → Option ByteArr) (group : Text) (m msg : MessageExt) :
    Prop where
  flag : msg.flag = m.flag
  reconsumeTimes : msg.reconsumeTimes = m.reconsumeTimes
  body : uncompressBody unzip m = some msg.body
  topic : msg.topic = if getRetryTopic group = m.topic then retryTopicOf m else m.topic
  properties : ∀ name ∉ pullNames, msg.getProperty name = m.getProperty name
  clean : CleanProps m.properties → CleanProps msg.properties

lemma consumedAs_of_consumed {minOffset maxOffset : Int64}
    (h : consumed unzip group minOffset maxOffset m = some msg) :
    ConsumedAs unzip group m msg := by
  obtain ⟨pulledMsg, hpulled, rfl⟩ := Option.map_eq_some_iff.mp h
  obtain ⟨body, hbody, rfl⟩ := Option.map_eq_some_iff.mp hpulled
  have hget : ∀ name ∉ pullNames, ((m.properties.put PROPERTY_MIN_OFFSET
      (valueOfLong minOffset)).put PROPERTY_MAX_OFFSET (valueOfLong maxOffset)).get name =
        m.getProperty name := by
    intro name hname
    simp only [pullNames, List.mem_cons, List.not_mem_nil, or_false, not_or] at hname
    exact (Props.get_put_of_ne _ (Ne.symm hname.2)).trans
      (Props.get_put_of_ne _ (Ne.symm hname.1))
  have hclean : CleanProps m.properties → CleanProps ((m.properties.put PROPERTY_MIN_OFFSET
      (valueOfLong minOffset)).put PROPERTY_MAX_OFFSET (valueOfLong maxOffset)) := fun hm =>
    (hm.put (by decide) (clean_valueOfLong _)).put (by decide) (clean_valueOfLong _)
  have hretry := hget PROPERTY_RETRY_TOPIC (by decide)
  unfold resetRetryTopic MessageExt.getProperty
  dsimp only
  rw [hretry]
  cases ht : m.getProperty PROPERTY_RETRY_TOPIC with
  | none =>
    refine ⟨rfl, rfl, hbody, ?_, hget, hclean⟩
    rw [retryTopicOf, ht, Option.getD_none, ite_self]
  | some t =>
    dsimp only
    split_ifs with htopic
    · refine ⟨rfl, rfl, hbody, ?_, hget, hclean⟩
      rw [if_pos htopic, retryTopicOf, ht, Option.getD_some]
    · exact ⟨rfl, rfl, hbody, (if_neg htopic).symm, hget, hclean⟩

/-- The names the consumer writes on its copy. -/
def backNames : List Text :=
  [PROPERTY_RETRY_TOPIC, PROPERTY_RECONSUME_TIME, PROPERTY_DELAY_TIME_LEVEL]

/-- The copy of the consumer. -/
structure CopiedAs (group : Text) (msg : MessageExt) (newMsg : ClientMessage) : Prop where
  topic : newMsg.topic = getRetryTopic group
  flag : newMsg.flag = msg.flag
  body : newMsg.body = msg.body
  retryTopic : newMsg.getProperty PROPERTY_RETRY_TOPIC = some msg.topic
  reconsumeTime : newMsg.getProperty PROPERTY_RECONSUME_TIME =
    some (valueOf (msg.reconsumeTimes + 1))
  level : newMsg.getProperty PROPERTY_DELAY_TIME_LEVEL =
    some (valueOf (3 + (msg.reconsumeTimes + 1)))
  other : ∀ name ∉ backNames, newMsg.getProperty name = msg.getProperty name
  clean : CleanProps msg.properties → CleanValue msg.topic → CleanProps newMsg.properties

lemma copiedAs_sendMessageBack (group : Text) (msg : MessageExt) :
    CopiedAs group msg (sendMessageBack group msg) where
  topic := rfl
  flag := rfl
  body := rfl
  retryTopic := (Props.get_put_of_ne _ (by decide)).trans
    ((Props.get_put_of_ne _ (by decide)).trans (Props.get_put_self _ _ _))
  reconsumeTime := (Props.get_put_of_ne _ (by decide)).trans (Props.get_put_self _ _ _)
  level := Props.get_put_self _ _ _
  other := by
    intro name hname
    simp only [backNames, List.mem_cons, List.not_mem_nil, or_false, not_or] at hname
    exact (Props.get_put_of_ne _ (Ne.symm hname.2.2)).trans
      ((Props.get_put_of_ne _ (Ne.symm hname.2.1)).trans
        (Props.get_put_of_ne _ (Ne.symm hname.1)))
  clean := fun hmsg htopic =>
    ((hmsg.put (by decide) htopic).put (by decide) (clean_valueOf _)).put (by decide)
      (clean_valueOf _)

/-! ### The request -/

/-- The copy after attempts of which one got as far as a request, or none. -/
structure AfterAttempts (newMsg left : ClientMessage) (reached : Bool) : Prop where
  topic : left.topic = newMsg.topic
  flag : left.flag = newMsg.flag
  body : left.body = newMsg.body
  reconsumeTime : left.getProperty PROPERTY_RECONSUME_TIME =
    if reached then none else newMsg.getProperty PROPERTY_RECONSUME_TIME
  other : ∀ name ≠ PROPERTY_RECONSUME_TIME, left.getProperty name = newMsg.getProperty name
  clean : CleanProps newMsg.properties → CleanProps left.properties

lemma isPrefixOf_retryTopic (group : Text) :
    RETRY_GROUP_TOPIC_PREFIX.isPrefixOf (getRetryTopic group) = true :=
  List.isPrefixOf_iff_prefix.mpr (List.prefix_append _ _)

/-- The number of retries on a copy is one, or is gone. -/
def CountedCopy (msg : ClientMessage) : Prop :=
  ∀ t, msg.getProperty PROPERTY_RECONSUME_TIME = some t → ∃ n, parseInt t = some n

lemma afterAttempts_step {newMsg left : ClientMessage} {reached : Bool}
    (htopic : newMsg.topic = getRetryTopic group) (hcounted : CountedCopy newMsg)
    (h : AfterAttempts newMsg left reached) (a : Attempt) :
    AfterAttempts newMsg (sendKernelImpl p a left).1 (reached || a.found) := by
  cases hfound : a.found with
  | false =>
    have hsame : (sendKernelImpl p a left).1 = left := by
      rw [sendKernelImpl, hfound]
      rfl
    rw [hsame, Bool.or_false]
    exact h
  | true =>
    rw [Bool.or_true]
    have hprefix : RETRY_GROUP_TOPIC_PREFIX.isPrefixOf left.topic = true := by
      rw [h.topic, htopic]
      exact isPrefixOf_retryTopic group
    unfold sendKernelImpl
    rw [hfound, if_pos rfl]
    dsimp only
    rw [if_pos hprefix]
    cases hget : left.getProperty PROPERTY_RECONSUME_TIME with
    | none => exact ⟨h.topic, h.flag, h.body, hget, h.other, h.clean⟩
    | some t =>
      have hnew : newMsg.getProperty PROPERTY_RECONSUME_TIME = some t := by
        have := h.reconsumeTime
        rw [hget] at this
        split_ifs at this
        exact this.symm
      obtain ⟨n, hn⟩ := hcounted t hnew
      dsimp only
      rw [hn]
      refine ⟨h.topic, h.flag, h.body, get_erase_self _ _, fun name hname => ?_,
        fun hclean => (h.clean hclean).erase _⟩
      exact (get_erase_of_ne (Ne.symm hname)).trans (h.other name hname)

lemma afterAttempts_foldl {newMsg : ClientMessage} (htopic : newMsg.topic = getRetryTopic group)
    (hcounted : CountedCopy newMsg) (earlier : List Attempt) (left : ClientMessage)
    (reached : Bool) (h : AfterAttempts newMsg left reached) :
    AfterAttempts newMsg (earlier.foldl (fun msg a => (sendKernelImpl p a msg).1) left)
      (reached || earlier.any Attempt.found) := by
  induction earlier generalizing left reached with
  | nil =>
    rw [List.any_nil, Bool.or_false]
    exact h
  | cons a earlier ih =>
    rw [List.foldl_cons, List.any_cons, ← Bool.or_assoc]
    exact ih _ _ (afterAttempts_step htopic hcounted h a)

/-- The request that leads to the record. -/
structure RequestOf (p : Producer) (newMsg : ClientMessage) (reached : Bool)
    (requestHeader : SendMessageRequestHeader) (body : Option ByteArr) : Prop where
  topic : requestHeader.topic = newMsg.topic
  flag : requestHeader.flag = newMsg.flag
  body : body = (tryToCompressMessage p newMsg).1
  sysFlag : requestHeader.sysFlag =
    sysFlagOf (tryToCompressMessage p newMsg).2 (isPrepared newMsg.properties)
  properties : ∃ order written, requestHeader.properties = messageProperties2String order written ∧
    (CleanProps newMsg.properties → CleanProps written) ∧
    ∀ name ≠ PROPERTY_RECONSUME_TIME, written.get name = newMsg.getProperty name
  reconsumeTimes : ∃ n, requestHeader.reconsumeTimes = n ∧
    (if reached then n = 0 else ∀ t, newMsg.getProperty PROPERTY_RECONSUME_TIME = some t →
      parseInt t = some n)

lemma isPrepared_congr {a b : Props} (h : a.get PROPERTY_TRANSACTION_PREPARED =
    b.get PROPERTY_TRANSACTION_PREPARED) : isPrepared a = isPrepared b := by
  rw [isPrepared, isPrepared, h]

lemma tryToCompressMessage_congr {a b : ClientMessage} (h : a.body = b.body) :
    tryToCompressMessage p a = tryToCompressMessage p b := by
  rw [tryToCompressMessage, tryToCompressMessage, h]

lemma requestOf_send {newMsg : ClientMessage} {earlier : List Attempt} {last : Attempt}
    {requestHeader : SendMessageRequestHeader} {body : Option ByteArr}
    (htopic : newMsg.topic = getRetryTopic group) (hcounted : CountedCopy newMsg)
    (h : send p earlier last newMsg = some (requestHeader, body)) :
    RequestOf p newMsg (earlier.any Attempt.found) requestHeader body := by
  unfold send at h
  split_ifs at h with hcheck
  have hleft := afterAttempts_foldl (p := p) htopic hcounted earlier newMsg false
    ⟨rfl, rfl, rfl, rfl, fun _ _ => rfl, id⟩
  rw [Bool.false_or] at hleft
  generalize earlier.foldl (fun msg a => (sendKernelImpl p a msg).1) newMsg = left at h hleft
  have hprefix : RETRY_GROUP_TOPIC_PREFIX.isPrefixOf left.topic = true := by
    rw [hleft.topic, htopic]
    exact isPrefixOf_retryTopic group
  have hprepared : isPrepared left.properties = isPrepared newMsg.properties :=
    isPrepared_congr (hleft.other _ (by decide))
  have hzipped := tryToCompressMessage_congr (p := p) hleft.body
  unfold sendKernelImpl at h
  split_ifs at h with hfound
  dsimp only at h
  cases hget : left.getProperty PROPERTY_RECONSUME_TIME with
  | none =>
    rw [hget] at h
    simp only [Option.some.injEq, Prod.mk.injEq] at h
    obtain ⟨rfl, rfl⟩ := h
    refine ⟨hleft.topic, hleft.flag, congrArg Prod.fst hzipped, ?_,
      ⟨_, _, rfl, hleft.clean, hleft.other⟩, ⟨0, rfl, ?_⟩⟩
    · rw [hprepared, hzipped]
    · split_ifs with hreached
      · rfl
      · intro t ht
        have := hleft.reconsumeTime
        rw [hget, if_neg hreached, ht] at this
        cases this
  | some t =>
    rw [hget] at h
    dsimp only at h
    have hnot : ¬ earlier.any Attempt.found = true := by
      intro hreached
      have := hleft.reconsumeTime
      rw [hget, if_pos hreached] at this
      cases this
    have hnew : newMsg.getProperty PROPERTY_RECONSUME_TIME = some t := by
      have := hleft.reconsumeTime
      rw [hget, if_neg hnot] at this
      exact this.symm
    obtain ⟨n, hn⟩ := hcounted t hnew
    rw [hn] at h
    simp only [Option.some.injEq, Prod.mk.injEq] at h
    obtain ⟨rfl, rfl⟩ := h
    refine ⟨hleft.topic, hleft.flag, congrArg Prod.fst hzipped, ?_,
      ⟨_, _, rfl, hleft.clean, hleft.other⟩, ⟨n, rfl, ?_⟩⟩
    · rw [hprepared, hzipped]
    · rw [if_neg hnot]
      intro t' ht'
      rw [hnew, Option.some.injEq] at ht'
      rw [← ht', hn]

/-! ### The records -/

section Records

variable {cfg : MessageStoreConfig} {env : Env} {inner record : MessageExtBrokerInner}
  {level : Int32} {order : EntryOrder} {written : Props}

/-- Ready for delivery, as far as the transaction type goes. -/
def Deliverable (sysFlag : Int32) : Prop :=
  getTransactionValue sysFlag = TransactionNotType ∨
    getTransactionValue sysFlag = TransactionCommitType

instance (sysFlag : Int32) : Decidable (Deliverable sysFlag) :=
  inferInstanceAs (Decidable (_ ∨ _))

lemma isDelayed_level (hlevel : inner.properties.get PROPERTY_DELAY_TIME_LEVEL =
    some (valueOf level)) :
    isDelayed inner = some (decide (Deliverable inner.sysFlag ∧ 0 < level)) := by
  have hget : inner.getDelayTimeLevel = some level := by
    rw [MessageExtBrokerInner.getDelayTimeLevel, MessageExtBrokerInner.getProperty, hlevel]
    exact parseInt_valueOf_self level
  change (if Deliverable inner.sysFlag then inner.getDelayTimeLevel.map fun level =>
    decide (0 < level) else some false) = _
  rw [hget]
  split_ifs with htran
  · rw [Option.map_some, Option.some.injEq]
    exact decide_eq_decide.mpr (and_iff_right htran).symm
  · rw [decide_eq_false fun h => htran h.1]

/-- A copy with a level, as it is stored. -/
structure StoredCopy (cfg : MessageStoreConfig) (inner record : MessageExtBrokerInner)
    (delayed : Bool) (level : Int32) (written : Props) : Prop where
  topic : record.topic = if delayed then SCHEDULE_TOPIC else inner.topic
  realTopic : delayed = true → (storedProps record).get PROPERTY_REAL_TOPIC = some inner.topic
  level : (storedProps record).get PROPERTY_DELAY_TIME_LEVEL =
    some (valueOf (if delayed then cfg.scheduleMessageService.capLevel level else level))
  other : ∀ name ∉ scheduleNames, (storedProps record).get name =
    if delayed then inner.properties.get name else written.get name
  flag : record.flag = inner.flag
  body : record.body = inner.body
  sysFlag : record.sysFlag = inner.sysFlag
  reconsumeTimes : record.reconsumeTimes = inner.reconsumeTimes

lemma storedCopy (hclean : CleanProps written) (hinner : CleanProps inner.properties)
    (htopic : CleanValue inner.topic)
    (hstring : inner.propertiesString = some (messageProperties2String order written))
    (hlevel : inner.properties.get PROPERTY_DELAY_TIME_LEVEL = some (valueOf level))
    (hwritten : written.get PROPERTY_DELAY_TIME_LEVEL = some (valueOf level))
    (hstored : stored cfg env inner = some record) :
    StoredCopy cfg inner record (decide (Deliverable inner.sysFlag ∧ 0 < level)) level
      written := by
  have hdelayed := isDelayed_level hlevel
  by_cases h : Deliverable inner.sysFlag ∧ 0 < level
  · rw [decide_eq_true h] at hdelayed ⊢
    have hw := waiting_of_delayed hdelayed hlevel hstored
    have hread := get_storedProps (hw.clean hinner htopic) hw.written
    exact ⟨hw.topic, fun _ => (hread _).trans hw.realTopic, (hread _).trans hw.delay,
      fun name hname => (hread name).trans (hw.other name hname), hw.flag, hw.body, hw.sysFlag,
      hw.reconsumeTimes⟩
  · rw [decide_eq_false h] at hdelayed ⊢
    rw [stored_at_once hdelayed, Option.some.injEq] at hstored
    subst hstored
    exact ⟨rfl, fun h => absurd h Bool.false_ne_true,
      (get_storedProps hclean hstring _).trans hwritten,
      fun name _ => get_storedProps hclean hstring name, rfl, rfl, rfl, rfl⟩

lemma stored_isSome (hlevel : inner.properties.get PROPERTY_DELAY_TIME_LEVEL =
    some (valueOf level)) : (stored cfg env inner).isSome := by
  rw [stored_eq, isDelayed_level hlevel, Option.bind_some]
  split_ifs
  · rw [Option.isSome_map]
    have hget : ∀ m₁ : MessageExtBrokerInner, m₁.properties.get PROPERTY_DELAY_TIME_LEVEL =
        some (valueOf level) → m₁.getDelayTimeLevel = some level := by
      intro m₁ h
      rw [MessageExtBrokerInner.getDelayTimeLevel, MessageExtBrokerInner.getProperty, h]
      exact parseInt_valueOf_self level
    have hset : ∀ (m₁ : MessageExtBrokerInner) (n : Int32),
        (m₁.setDelayTimeLevel n).getDelayTimeLevel = some n := by
      intro m₁ n
      rw [MessageExtBrokerInner.getDelayTimeLevel, MessageExtBrokerInner.getProperty]
      unfold MessageExtBrokerInner.setDelayTimeLevel MessageExtBrokerInner.putProperty
      rw [Props.get_put_self]
      exact parseInt_valueOf_self n
    unfold redirect
    rw [hget (checksum env inner) hlevel, Option.bind_eq_bind, Option.bind_some]
    dsimp only
    split_ifs
    · rw [hset]
      rfl
    · rw [hget (checksum env inner) hlevel]
      rfl
  · rfl

lemma valueOf_inj {a b : Int32} (h : valueOf a = valueOf b) : a = b := by
  have := congrArg parseInt h
  rwa [parseInt_valueOf_self, parseInt_valueOf_self, Option.some.injEq] at this

end Records

section Flags

variable (compressed prepared : Bool) (multi : Prop) [Decidable multi]

lemma deliverable_sysFlagOf : Deliverable (if multi then
      sysFlagOf compressed prepared ||| MultiTagsFlag else sysFlagOf compressed prepared) ↔
    prepared = false := by
  split_ifs
  · revert compressed prepared
    decide
  · revert compressed prepared
    decide

lemma compressed_sysFlagOf : (if multi then sysFlagOf compressed prepared ||| MultiTagsFlag
      else sysFlagOf compressed prepared) &&& CompressedFlag = CompressedFlag ↔
    compressed = true := by
  split_ifs
  · revert compressed prepared
    decide
  · revert compressed prepared
    decide

end Flags

/-! ### The two copies -/

section Copies

variable {cfg : MessageStoreConfig} {env : Env} {inner record : MessageExtBrokerInner}
  {retryMaxTimes : Int32} {earlier : List Attempt} {last : Attempt}

/-- What the two copies have in common: `level` is the one they ask for. -/
structure RetryRecord (cfg : MessageStoreConfig) (group : Text) (record : MessageExtBrokerInner)
    (delayed : Bool) (level : Int32) : Prop where
  topic : record.topic = if delayed then SCHEDULE_TOPIC else getRetryTopic group
  realTopic : delayed = true →
    (storedProps record).get PROPERTY_REAL_TOPIC = some (getRetryTopic group)
  level : (storedProps record).get PROPERTY_DELAY_TIME_LEVEL =
    some (valueOf (if delayed then cfg.scheduleMessageService.capLevel level else level))

/-- The record of the broker's copy. -/
structure SentBackRecord (cfg : MessageStoreConfig) (group : Text) (m : MessageExt)
    (record : MessageExtBrokerInner) : Prop where
  retry : RetryRecord cfg group record (decide (0 < 3 + m.reconsumeTimes)) (3 + m.reconsumeTimes)
  retryTopic : (storedProps record).get PROPERTY_RETRY_TOPIC = some (retryTopicOf m)
  originMessageId : 0 < 3 + m.reconsumeTimes →
    (storedProps record).get PROPERTY_ORIGIN_MESSAGE_ID = some (originMsgId m)
  flag : record.flag = m.flag
  body : record.body = m.body
  sysFlag : record.sysFlag = m.sysFlag
  reconsumeTimes : record.reconsumeTimes = m.reconsumeTimes + 1

lemma sentBackRecord (hsent : SentBackAs group retryMaxTimes m inner)
    (htimes : m.reconsumeTimes < retryMaxTimes) (hwritable : Writable m)
    (hgroup : CleanValue (getRetryTopic group)) (hconsumed : Deliverable m.sysFlag)
    (hstored : stored cfg env inner = some record) : SentBackRecord cfg group m record := by
  obtain ⟨b, queueIdInt, hinner⟩ := sentBackAs_cases hsent
  rw [if_neg (Int32.not_le.mpr htimes)] at hinner
  subst hinner
  have hclean : CleanProps ((retryProperties m).put PROPERTY_DELAY_TIME_LEVEL
      (valueOf (3 + m.reconsumeTimes))) :=
    (clean_retryProperties hwritable).put (by decide) (clean_valueOf _)
  have hlevel := Props.get_put_self (retryProperties m) PROPERTY_DELAY_TIME_LEVEL
    (valueOf (3 + m.reconsumeTimes))
  have hcopy := storedCopy hclean
    (hclean.put (by decide) (clean_originMsgId hwritable.properties)) hgroup rfl
    ((Props.get_put_of_ne _ (by decide)).trans hlevel) hlevel hstored
  have hdelayed : decide (Deliverable m.sysFlag ∧ 0 < 3 + m.reconsumeTimes) =
      decide (0 < 3 + m.reconsumeTimes) :=
    decide_eq_decide.mpr (and_iff_right hconsumed)
  change StoredCopy cfg _ record (decide (Deliverable m.sysFlag ∧ 0 < 3 + m.reconsumeTimes)) _ _
    at hcopy
  rw [hdelayed] at hcopy
  refine ⟨⟨hcopy.topic, hcopy.realTopic, hcopy.level⟩, ?_, fun hpos => ?_, hcopy.flag, hcopy.body,
    hcopy.sysFlag, hcopy.reconsumeTimes⟩
  · have hget : ((retryProperties m).put PROPERTY_DELAY_TIME_LEVEL
        (valueOf (3 + m.reconsumeTimes))).get PROPERTY_RETRY_TOPIC = some (retryTopicOf m) :=
      (Props.get_put_of_ne _ (by decide)).trans get_retryProperties_retryTopic
    rw [hcopy.other _ (by decide)]
    split_ifs
    · exact (Props.get_put_of_ne _ (by decide)).trans hget
    · exact hget
  · rw [hcopy.other _ (by decide), if_pos (decide_eq_true hpos)]
    exact Props.get_put_self _ _ _

/-- The record of the consumer's copy. -/
structure SentRecord (cfg : MessageStoreConfig) (unzip : ByteArr → Option ByteArr) (group : Text)
    (m msg : MessageExt) (reached : Bool) (record : MessageExtBrokerInner) : Prop where
  retry : RetryRecord cfg group record
    (decide (isPrepared m.properties = false ∧ 0 < 3 + (m.reconsumeTimes + 1)))
    (3 + (m.reconsumeTimes + 1))
  retryTopic : (storedProps record).get PROPERTY_RETRY_TOPIC = some msg.topic
  originMessageId : (storedProps record).get PROPERTY_ORIGIN_MESSAGE_ID =
    m.getProperty PROPERTY_ORIGIN_MESSAGE_ID
  flag : record.flag = m.flag
  body : contentOf unzip record = msg.body
  reconsumeTimes : record.reconsumeTimes = if reached then 0 else m.reconsumeTimes + 1

/-- A copy that is not refused passed the check, and is no transaction message for a broker without
them. -/
lemma fallback_some (h : fallback p r group earlier last msg = some inner) :
    ∃ requestHeader body, checkMessage p (sendMessageBack group msg) = true ∧
      send p earlier last (sendMessageBack group msg) = some (requestHeader, body) ∧
      sendMessage r requestHeader body = some inner := by
  obtain ⟨⟨requestHeader, body⟩, hsend, hinner⟩ := Option.bind_eq_some_iff.mp h
  refine ⟨requestHeader, body, ?_, hsend, hinner⟩
  unfold send at hsend
  split_ifs at hsend with hcheck
  exact hcheck

lemma contentOf_sent (hzip : ∀ a b, p.zip a = some b → unzip b = some a) {newMsg : ClientMessage}
    {prepared : Bool} {multi : Prop} [Decidable multi]
    (hbody : record.body = (tryToCompressMessage p newMsg).1)
    (hflag : record.sysFlag = if multi then
        sysFlagOf (tryToCompressMessage p newMsg).2 prepared ||| MultiTagsFlag
      else sysFlagOf (tryToCompressMessage p newMsg).2 prepared) :
    contentOf unzip record = newMsg.body := by
  unfold contentOf
  rw [hflag, if_congr (compressed_sysFlagOf _ prepared multi) rfl rfl, hbody]
  cases hnew : newMsg.body with
  | none =>
    rw [show tryToCompressMessage p newMsg = (none, false) by rw [tryToCompressMessage, hnew]]
    rfl
  | some body =>
    by_cases hlong : p.compressMsgBodyOverHowmuch ≤ body.val.length
    · cases hdata : p.zip body with
      | none =>
        have hzipped : tryToCompressMessage p newMsg = (some body, false) := by
          rw [tryToCompressMessage, hnew]
          dsimp only
          rw [if_pos hlong, hdata]
        rw [hzipped]
        rfl
      | some data =>
        have hzipped : tryToCompressMessage p newMsg = (some data, true) := by
          rw [tryToCompressMessage, hnew]
          dsimp only
          rw [if_pos hlong, hdata]
        rw [hzipped]
        exact hzip body data hdata
    · have hzipped : tryToCompressMessage p newMsg = (some body, false) := by
        rw [tryToCompressMessage, hnew]
        exact if_neg hlong
      rw [hzipped]
      rfl

lemma sendMessage_some {requestHeader : SendMessageRequestHeader} {body : Option ByteArr}
    (h : sendMessage r requestHeader body = some inner) :
    (r.rejectTransactionMessage &&
      ((string2messageProperties requestHeader.properties).get
        PROPERTY_TRANSACTION_PREPARED).isSome) = false ∧
      buildInnerMsg r requestHeader body = inner := by
  unfold sendMessage at h
  dsimp only at h
  split_ifs at h with hrejected
  exact ⟨Bool.eq_false_iff.mpr hrejected, Option.some.inj h⟩

lemma isPrepared_consumed (h : ConsumedAs unzip group m msg) :
    isPrepared (sendMessageBack group msg).properties = isPrepared m.properties :=
  isPrepared_congr (((copiedAs_sendMessageBack group msg).other _ (by decide)).trans
    (h.properties _ (by decide)))

lemma countedCopy_sendMessageBack (group : Text) (msg : MessageExt) :
    CountedCopy (sendMessageBack group msg) := by
  intro t ht
  rw [(copiedAs_sendMessageBack group msg).reconsumeTime, Option.some.injEq] at ht
  exact ⟨_, ht ▸ parseInt_valueOf_self _⟩

/-- The broker finds the properties of the copy in the request. -/
lemma read_request {requestHeader : SendMessageRequestHeader} {body : Option ByteArr}
    (hmsg : ConsumedAs unzip group m msg) (hclean : CleanProps m.properties)
    (htopic : CleanValue msg.topic)
    (hsend : send p earlier last (sendMessageBack group msg) = some (requestHeader, body))
    {name : Text} (hname : name ≠ PROPERTY_RECONSUME_TIME) :
    (string2messageProperties requestHeader.properties).get name =
      (sendMessageBack group msg).getProperty name := by
  have hnew := copiedAs_sendMessageBack group msg
  have hrequest := requestOf_send hnew.topic (countedCopy_sendMessageBack group msg) hsend
  obtain ⟨order, written, hstring, hwclean, hget⟩ := hrequest.properties
  rw [hstring, get_roundTrip (hwclean (hnew.clean (hmsg.clean hclean) htopic)), hget _ hname]

/-- And what the message says of a transaction. -/
lemma read_prepared {requestHeader : SendMessageRequestHeader} {body : Option ByteArr}
    (hmsg : ConsumedAs unzip group m msg) (hclean : CleanProps m.properties)
    (htopic : CleanValue msg.topic)
    (hsend : send p earlier last (sendMessageBack group msg) = some (requestHeader, body)) :
    (string2messageProperties requestHeader.properties).get PROPERTY_TRANSACTION_PREPARED =
      m.getProperty PROPERTY_TRANSACTION_PREPARED := by
  rw [read_request hmsg hclean htopic hsend (by decide),
    (copiedAs_sendMessageBack group msg).other _ (by decide), hmsg.properties _ (by decide)]

variable (earlier) in
lemma send_isSome {newMsg : ClientMessage} (hcheck : checkMessage p newMsg = true)
    (hfound : last.found = true) (htopic : newMsg.topic = getRetryTopic group)
    (hcounted : CountedCopy newMsg) : ∃ request, send p earlier last newMsg = some request := by
  have hleft := afterAttempts_foldl (p := p) htopic hcounted earlier newMsg false
    ⟨rfl, rfl, rfl, rfl, fun _ _ => rfl, id⟩
  unfold send
  rw [if_pos hcheck]
  generalize earlier.foldl (fun msg a => (sendKernelImpl p a msg).1) newMsg = left at hleft ⊢
  have hprefix : RETRY_GROUP_TOPIC_PREFIX.isPrefixOf left.topic = true := by
    rw [hleft.topic, htopic]
    exact isPrefixOf_retryTopic group
  unfold sendKernelImpl
  rw [if_pos hfound]
  dsimp only
  rw [if_pos hprefix]
  cases hget : left.getProperty PROPERTY_RECONSUME_TIME with
  | none => exact ⟨_, rfl⟩
  | some t =>
    have htime := hleft.reconsumeTime
    rw [hget] at htime
    split_ifs at htime
    obtain ⟨n, hn⟩ := hcounted t htime.symm
    dsimp only
    rw [hn]
    exact ⟨_, rfl⟩

variable (earlier) in
/-- A copy that passes the check, and is no transaction message where those are refused, comes to
the store. -/
lemma fallback_isSome (hmsg : ConsumedAs unzip group m msg) (hclean : CleanProps m.properties)
    (htopic : CleanValue msg.topic) (hcheck : checkMessage p (sendMessageBack group msg) = true)
    (hfound : last.found = true) (haccepted : r.rejectTransactionMessage = true →
      m.getProperty PROPERTY_TRANSACTION_PREPARED = none) :
    ∃ inner, fallback p r group earlier last msg = some inner := by
  obtain ⟨⟨requestHeader, body⟩, hsend⟩ := send_isSome earlier hcheck hfound
    (copiedAs_sendMessageBack group msg).topic (countedCopy_sendMessageBack group msg)
  have hread := read_prepared hmsg hclean htopic hsend
  refine ⟨buildInnerMsg r requestHeader body, ?_⟩
  rw [fallback, hsend, Option.bind_some, sendMessage]
  refine if_neg fun hrejected => ?_
  obtain ⟨hreject, hsome⟩ := Bool.and_eq_true_iff.mp hrejected
  change ((string2messageProperties requestHeader.properties).get
    PROPERTY_TRANSACTION_PREPARED).isSome = true at hsome
  rw [hread, haccepted hreject] at hsome
  cases hsome

variable (cfg env) in
lemma stored_fallback (hmsg : ConsumedAs unzip group m msg) (hclean : CleanProps m.properties)
    (htopic : CleanValue msg.topic) (h : fallback p r group earlier last msg = some inner) :
    (stored cfg env inner).isSome := by
  obtain ⟨requestHeader, body, -, hsend, hinner⟩ := fallback_some h
  obtain ⟨-, rfl⟩ := sendMessage_some hinner
  exact stored_isSome ((read_request hmsg hclean htopic hsend (by decide)).trans
    (copiedAs_sendMessageBack group msg).level)

variable (cfg env) in
lemma stored_sentBack (hsent : SentBackAs group retryMaxTimes m inner)
    (htimes : m.reconsumeTimes < retryMaxTimes) : (stored cfg env inner).isSome := by
  obtain ⟨b, queueIdInt, hinner⟩ := sentBackAs_cases hsent
  rw [if_neg (Int32.not_le.mpr htimes)] at hinner
  subst hinner
  exact stored_isSome ((Props.get_put_of_ne _ (by decide)).trans (Props.get_put_self _ _ _))

lemma sentRecord (hzip : ∀ a b, p.zip a = some b → unzip b = some a)
    (hmsg : ConsumedAs unzip group m msg) (hclean : CleanProps m.properties)
    (htopic : CleanValue msg.topic) (hgroup : CleanValue (getRetryTopic group))
    (h : fallback p r group earlier last msg = some inner)
    (hstored : stored cfg env inner = some record) :
    SentRecord cfg unzip group m msg (earlier.any Attempt.found) record := by
  obtain ⟨requestHeader, body, -, hsend, hinner⟩ := fallback_some h
  have hnew := copiedAs_sendMessageBack group msg
  have hrequest := requestOf_send hnew.topic (countedCopy_sendMessageBack group msg) hsend
  obtain ⟨order, written, hstring, hwclean, hget⟩ := hrequest.properties
  obtain ⟨n, hn, htimes⟩ := hrequest.reconsumeTimes
  replace hwclean := hwclean (hnew.clean (hmsg.clean hclean) htopic)
  -- what the broker reads of the properties
  have hread : ∀ name, (string2messageProperties requestHeader.properties).get name =
      written.get name := by
    intro name
    rw [hstring]
    exact get_roundTrip hwclean name
  obtain ⟨-, rfl⟩ := sendMessage_some hinner
  have hlevel : written.get PROPERTY_DELAY_TIME_LEVEL =
      some (valueOf (3 + (m.reconsumeTimes + 1))) := by
    rw [hget _ (by decide), hnew.level, hmsg.reconsumeTimes]
  have htopic' : (buildInnerMsg r requestHeader body).topic = getRetryTopic group :=
    hrequest.topic.trans hnew.topic
  have hcopy := storedCopy hwclean (clean_string2messageProperties _)
    (htopic' ▸ hgroup) (congrArg some hstring)
    ((hread _).trans hlevel) hlevel hstored
  have hflag : (buildInnerMsg r requestHeader body).sysFlag =
      if r.topicConfig.topicFilterType = .MULTI_TAG then
        sysFlagOf (tryToCompressMessage p (sendMessageBack group msg)).2
          (isPrepared m.properties) ||| MultiTagsFlag
      else sysFlagOf (tryToCompressMessage p (sendMessageBack group msg)).2
        (isPrepared m.properties) := by
    rw [← isPrepared_consumed hmsg, ← hrequest.sysFlag]
    rfl
  have hdeliverable : Deliverable (buildInnerMsg r requestHeader body).sysFlag ↔
      isPrepared m.properties = false := by
    rw [hflag]
    exact deliverable_sysFlagOf _ _ _
  rw [decide_eq_decide.mpr (and_congr_left' hdeliverable)] at hcopy
  have hother : ∀ name ∉ scheduleNames, (storedProps record).get name = written.get name := by
    intro name hname
    rw [hcopy.other name hname]
    split_ifs
    · exact hread name
    · rfl
  refine ⟨⟨hcopy.topic.trans ?_, fun hd => (hcopy.realTopic hd).trans ?_, hcopy.level⟩, ?_, ?_,
    ?_, ?_, ?_⟩
  · rw [htopic']
  · rw [htopic']
  · rw [hother _ (by decide), hget _ (by decide), hnew.retryTopic]
  · rw [hother _ (by decide), hget _ (by decide), hnew.other _ (by decide),
      hmsg.properties _ (by decide)]
  · exact hcopy.flag.trans (hrequest.flag.trans (hnew.flag.trans hmsg.flag))
  · exact (contentOf_sent hzip (hcopy.body.trans hrequest.body)
      (hcopy.sysFlag.trans hflag)).trans hnew.body
  · rw [hcopy.reconsumeTimes]
    change requestHeader.reconsumeTimes = _
    rw [hn]
    split_ifs at htimes ⊢ with hreached
    · exact htimes
    · have := htimes _ hnew.reconsumeTime
      rw [parseInt_valueOf_self, Option.some.injEq] at this
      rw [← this, hmsg.reconsumeTimes]

end Copies

/-! ### When they agree -/

/-- What makes the two copies the same. `highest` says that the highest delay is no more than the
level that is asked for, and that the next level is still a number. -/
structure SameInputs (svc : ScheduleMessageService) (p : Producer) (r : Receiver) (group : Text)
    (m msg : MessageExt) (earlier : List Attempt) : Prop where
  topic : checkTopic (getRetryTopic group) = true
  body : checkBody p msg.body = true
  notPrepared : isPrepared m.properties = false
  notRejected : r.rejectTransactionMessage = true →
    m.getProperty PROPERTY_TRANSACTION_PREPARED = none
  highest : svc.getMaxDelayLevel.toInt ≤ 3 + m.reconsumeTimes.toInt ∧
    4 + m.reconsumeTimes.toInt < 2 ^ 31
  identified : ∃ id, m.getProperty PROPERTY_ORIGIN_MESSAGE_ID = some id ∧ isBlank id = false
  ownTopic : m.getProperty PROPERTY_RETRY_TOPIC = none ∨ m.topic = getRetryTopic group ∨
    m.getProperty PROPERTY_RETRY_TOPIC = some m.topic
  counted : (∀ a ∈ earlier, a.found = false) ∨ m.reconsumeTimes + 1 = 0

lemma toInt_three_add (n : Int32) : (3 + n).toInt =
    if 3 + n.toInt < 2 ^ 31 then 3 + n.toInt else 3 + n.toInt - 2 ^ 32 := by
  have h1 := n.toInt_lt
  have h2 := n.le_toInt
  rw [Int32.toInt_add]
  change (3 + n.toInt).bmod (2 ^ 32) = _
  rw [Int.bmod_def]
  split_ifs <;> omega

lemma toInt_four_add (n : Int32) : (3 + (n + 1)).toInt =
    if 4 + n.toInt < 2 ^ 31 then 4 + n.toInt else 4 + n.toInt - 2 ^ 32 := by
  have h1 := n.toInt_lt
  have h2 := n.le_toInt
  have h4 : 3 + (n + 1) = 4 + n := by
    rw [Int32.add_comm n 1, ← Int32.add_assoc]
    rfl
  rw [h4, Int32.toInt_add]
  change (4 + n.toInt).bmod (2 ^ 32) = _
  rw [Int.bmod_def]
  split_ifs <;> omega

/-- The two levels come to the same exactly when both count as the highest. -/
lemma sameLevel_iff {cfg : MessageStoreConfig} {a b : MessageExtBrokerInner} {n : Int32}
    {prepared : Bool} (ha : RetryRecord cfg group a (decide (0 < 3 + n)) (3 + n))
    (hb : RetryRecord cfg group b (decide (prepared = false ∧ 0 < 3 + (n + 1))) (3 + (n + 1))) :
    b.topic = a.topic ∧ (storedProps b).get PROPERTY_DELAY_TIME_LEVEL =
        (storedProps a).get PROPERTY_DELAY_TIME_LEVEL ↔
      prepared = false ∧ cfg.scheduleMessageService.getMaxDelayLevel.toInt ≤ 3 + n.toInt ∧
        4 + n.toInt < 2 ^ 31 := by
  have hmax := cfg.scheduleMessageService.getMaxDelayLevel_pos
  have h3 := toInt_three_add n
  have h4 := toInt_four_add n
  have hbound := n.toInt_lt
  have hpos3 : 0 < 3 + n ↔ 0 < (3 + n).toInt := Int32.lt_iff_toInt_lt
  have hpos4 : 0 < 3 + (n + 1) ↔ 0 < (3 + (n + 1)).toInt := Int32.lt_iff_toInt_lt
  have hcap := toInt_capLevel cfg.scheduleMessageService (3 + n)
  have hcap' := toInt_capLevel cfg.scheduleMessageService (3 + (n + 1))
  have htopics : getRetryTopic group ≠ SCHEDULE_TOPIC := ne_schedule rfl
  have hne : (3 + (n + 1)).toInt ≠ (3 + n).toInt := by
    rw [h3, h4]
    split_ifs <;> omega
  rw [hb.topic, ha.topic, hb.level, ha.level, Option.some.injEq]
  by_cases hd : 0 < 3 + n
  · rw [decide_eq_true hd]
    by_cases hd' : prepared = false ∧ 0 < 3 + (n + 1)
    · rw [decide_eq_true hd', if_pos rfl, if_pos rfl, if_pos rfl, and_iff_right rfl,
        and_iff_right hd'.1]
      have hlevels : valueOf (cfg.scheduleMessageService.capLevel (3 + (n + 1))) =
          valueOf (cfg.scheduleMessageService.capLevel (3 + n)) ↔
          min (3 + (n + 1)).toInt cfg.scheduleMessageService.getMaxDelayLevel.toInt =
            min (3 + n).toInt cfg.scheduleMessageService.getMaxDelayLevel.toInt := by
        rw [← hcap, ← hcap', Int32.toInt_inj]
        exact ⟨valueOf_inj, congrArg valueOf⟩
      rw [hlevels]
      have h1 := hpos3.mp hd
      have h2 := hpos4.mp hd'.2
      rw [h3] at h1 ⊢
      rw [h4] at h2 ⊢
      split_ifs at h1 h2 ⊢ <;> omega
    · rw [decide_eq_false hd', if_pos rfl, if_neg Bool.false_ne_true]
      refine iff_of_false (fun h => htopics h.1) fun h => hd' ⟨h.1, ?_⟩
      rw [hpos4, h4, if_pos h.2.2]
      omega
  · rw [decide_eq_false hd]
    refine iff_of_false (fun h => ?_) fun h => hd ?_
    · by_cases hd' : prepared = false ∧ 0 < 3 + (n + 1)
      · rw [decide_eq_true hd', if_pos rfl, if_neg Bool.false_ne_true] at h
        exact htopics h.1.symm
      · rw [decide_eq_false hd'] at h
        exact hne (congrArg Int32.toInt (valueOf_inj h.2))
    · rw [hpos3, h3, if_pos (by omega)]
      omega

lemma pos_of_highest {svc : ScheduleMessageService} {n : Int32}
    (h : svc.getMaxDelayLevel.toInt ≤ 3 + n.toInt ∧ 4 + n.toInt < 2 ^ 31) : 0 < 3 + n := by
  have hmax := svc.getMaxDelayLevel_pos
  rw [Int32.lt_iff_toInt_lt, toInt_three_add, if_pos (by omega)]
  change 0 < 3 + n.toInt
  omega

/-- The broker's copy has the content that the consumer got. -/
lemma contentOf_sentBack {record : MessageExtBrokerInner} {body : Option ByteArr}
    (h : uncompressBody unzip m = some body) (hbody : record.body = m.body)
    (hflag : record.sysFlag = m.sysFlag) : contentOf unzip record = body := by
  unfold contentOf
  rw [hbody, hflag]
  unfold uncompressBody at h
  cases hm : m.body with
  | none =>
    rw [hm] at h
    rw [Option.bind_none, ite_self]
    exact Option.some.inj h
  | some data =>
    rw [hm] at h
    dsimp only at h
    split_ifs at h ⊢ with hcompressed
    · obtain ⟨content, hcontent, rfl⟩ := Option.map_eq_some_iff.mp h
      exact hcontent
    · exact Option.some.inj h

lemma clean_of_matcher {topic : Text} (h : regularExpressionMatcher topic = true) :
    CleanValue topic := by
  obtain ⟨hne, hall⟩ := Bool.and_eq_true_iff.mp h
  have hchar := List.all_eq_true.mp hall
  refine ⟨fun hmem => absurd (hchar _ hmem) (by decide),
    fun hmem => absurd (hchar _ hmem) (by decide), ?_⟩
  rintro rfl
  cases hne

lemma checkTopic_matcher {topic : Text} (h : checkTopic topic = true) :
    regularExpressionMatcher topic = true := by
  simp only [checkTopic, Bool.and_eq_true] at h
  exact h.1.1.2

/-- The topic of the consumer's copy is the one the broker's copy remembers, or the message
remembers another one. -/
lemma topic_consumed_iff (h : ConsumedAs unzip group m msg) :
    msg.topic = retryTopicOf m ↔ m.getProperty PROPERTY_RETRY_TOPIC = none ∨
      m.topic = getRetryTopic group ∨ m.getProperty PROPERTY_RETRY_TOPIC = some m.topic := by
  rw [h.topic]
  split_ifs with hretry
  · exact iff_of_true rfl (.inr (.inl hretry.symm))
  · rw [retryTopicOf]
    cases hget : m.getProperty PROPERTY_RETRY_TOPIC with
    | none => exact iff_of_true rfl (.inl rfl)
    | some t =>
      rw [Option.getD_some, Option.some.injEq, eq_comm]
      refine ⟨fun heq => .inr (.inr heq), fun hor => ?_⟩
      exact (hor.resolve_left (Option.some_ne_none t)).resolve_left (Ne.symm hretry)

/-- The identifiers agree exactly when the message has one already. -/
lemma originMsgId_eq_iff : m.getProperty PROPERTY_ORIGIN_MESSAGE_ID = some (originMsgId m) ↔
    ∃ id, m.getProperty PROPERTY_ORIGIN_MESSAGE_ID = some id ∧ isBlank id = false := by
  constructor
  · exact fun h => ⟨_, h, isBlank_originMsgId m⟩
  · rintro ⟨id, hget, hblank⟩
    rw [hget, originMsgId_of_get hget hblank]

/-- **The two ways agree** for messages that both ask for the highest delay, have an identifier
from before, name no other topic and are no transaction messages, and that are sent with the first
attempt that gets as far as a request. -/
theorem agree_iff {cfg : MessageStoreConfig} {bs : Bytes} {env env' : Env}
    {minOffset maxOffset : Int64} {inner : MessageExtBrokerInner} {retryMaxTimes : Int32}
    {earlier : List Attempt} {last : Attempt} (hdecoded : decode bs = some m)
    (hconsumed : consumed unzip group minOffset maxOffset m = some msg)
    (hdeliverable : Deliverable m.sysFlag) (hname : regularExpressionMatcher m.topic = true)
    (htimes : m.reconsumeTimes < retryMaxTimes) (hsent : SentBackAs group retryMaxTimes m inner)
    (hfound : last.found = true) (hzip : ∀ a b, p.zip a = some b → unzip b = some a) :
    Agree unzip (stored cfg env inner)
        ((fallback p r group earlier last msg).bind (stored cfg env')) ↔
      SameInputs cfg.scheduleMessageService p r group m msg earlier := by
  have hmsg := consumedAs_of_consumed hconsumed
  obtain ⟨hclean, -⟩ := readable_of_decode hdecoded
  have hown := clean_of_matcher hname
  have hwritable : Writable m := ⟨hclean, fun _ => hown⟩
  have htopic : CleanValue msg.topic := by
    rw [hmsg.topic, retryTopicOf]
    split_ifs
    · cases hget : m.getProperty PROPERTY_RETRY_TOPIC with
      | none => exact hown
      | some t => exact hclean.value hget
    · exact hown
  constructor
  · rintro ⟨a, b, ha, hb, hsame⟩
    obtain ⟨inner', hinner', hb⟩ := Option.bind_eq_some_iff.mp hb
    obtain ⟨requestHeader, body, hcheck, hsend, hsendMessage⟩ := fallback_some hinner'
    obtain ⟨hchecktopic, hcheckbody⟩ := Bool.and_eq_true_iff.mp hcheck
    have hgroup := clean_of_matcher (checkTopic_matcher hchecktopic)
    have hra := sentBackRecord hsent htimes hwritable hgroup hdeliverable ha
    have hrb := sentRecord hzip hmsg hclean htopic hgroup hinner' hb
    obtain ⟨hprepared, hhighest⟩ := (sameLevel_iff hra.retry hrb.retry).mp
      ⟨hsame.topic, hsame.level⟩
    have hpos := pos_of_highest hhighest
    refine ⟨hchecktopic, hcheckbody, hprepared, fun hreject => ?_, hhighest,
      originMsgId_eq_iff.mp ?_, (topic_consumed_iff hmsg).mp ?_, ?_⟩
    · have hnot := (sendMessage_some hsendMessage).1
      rw [read_prepared hmsg hclean htopic hsend, hreject, Bool.true_and] at hnot
      exact Option.not_isSome_iff_eq_none.mp (Bool.eq_false_iff.mp hnot)
    · rw [← hrb.originMessageId, hsame.originMessageId, hra.originMessageId hpos]
    · exact Option.some.inj (hrb.retryTopic.symm.trans (hsame.retryTopic.trans hra.retryTopic))
    · have hcount := hsame.reconsumeTimes
      rw [hra.reconsumeTimes, hrb.reconsumeTimes] at hcount
      split_ifs at hcount with hreached
      · exact .inr hcount.symm
      · refine .inl fun attempt hmem => Bool.eq_false_iff.mpr fun hf => hreached ?_
        exact List.any_eq_true.mpr ⟨attempt, hmem, hf⟩
  · intro h
    have hgroup := clean_of_matcher (checkTopic_matcher h.topic)
    obtain ⟨inner', hinner'⟩ := fallback_isSome earlier hmsg hclean htopic
      (Bool.and_eq_true_iff.mpr ⟨h.topic, h.body⟩) hfound h.notRejected
    obtain ⟨a, ha⟩ := Option.isSome_iff_exists.mp (stored_sentBack cfg env hsent htimes)
    obtain ⟨b, hb⟩ := Option.isSome_iff_exists.mp (stored_fallback cfg env' hmsg hclean htopic
      hinner')
    have hra := sentBackRecord hsent htimes hwritable hgroup hdeliverable ha
    have hrb := sentRecord hzip hmsg hclean htopic hgroup hinner' hb
    obtain ⟨hschedule, hlevel⟩ := (sameLevel_iff hra.retry hrb.retry).mpr
      ⟨h.notPrepared, h.highest⟩
    have hpos := pos_of_highest h.highest
    have hpos' : 0 < 3 + (m.reconsumeTimes + 1) := by
      have hmax := cfg.scheduleMessageService.getMaxDelayLevel_pos
      have hhigh := h.highest
      rw [Int32.lt_iff_toInt_lt, toInt_four_add, if_pos (by omega)]
      change 0 < 4 + m.reconsumeTimes.toInt
      omega
    refine ⟨a, b, ha, by rw [hinner', Option.bind_some, hb], hschedule, ?_, ?_, ?_, ?_, hlevel, ?_,
      ?_⟩
    · rw [hrb.retry.realTopic (decide_eq_true ⟨h.notPrepared, hpos'⟩),
        hra.retry.realTopic (decide_eq_true hpos)]
    · rw [hrb.body]
      exact (contentOf_sentBack hmsg.body hra.body hra.sysFlag).symm
    · rw [hrb.flag, hra.flag]
    · rw [hrb.reconsumeTimes, hra.reconsumeTimes]
      rcases h.counted with hnone | hzero
      · rw [if_neg]
        intro hreached
        obtain ⟨attempt, hmem, hf⟩ := List.any_eq_true.mp hreached
        rw [hnone attempt hmem] at hf
        cases hf
      · rw [hzero, ite_self]
    · rw [hrb.retryTopic, hra.retryTopic, (topic_consumed_iff hmsg).mpr h.ownTopic]
    · rw [hrb.originMessageId, hra.originMessageId hpos, originMsgId_eq_iff.mpr h.identified]

/-! ### One message, both ways -/

/-- A producer whose compression leaves everything as it is; it is not used for short bodies. -/
def smallProducer : Producer := ⟨1024 * 128, 1024 * 4, some⟩

def plainReceiver : Receiver := ⟨{}, false, 0, host, host⟩

def oneAttempt : Attempt := ⟨true, 0, 0, zeroEnv.entryOrder⟩

/-- The message in the log, the consumed one, and the broker's copy. -/
def bothWays (m : MessageExtBrokerInner) :
    Option (MessageExt × MessageExt × MessageExtBrokerInner) := do
  let msgExt ← decode (bytesOf m)
  let msg ← consumed some "G".toList 0 1 msgExt
  let inner ← sentOf 16 msgExt
  return (msgExt, msg, inner)

lemma bothWays_some {message : MessageExtBrokerInner} {inner : MessageExtBrokerInner}
    (h : bothWays message = some (m, msg, inner)) : decode (bytesOf message) = some m ∧
      consumed some "G".toList 0 1 m = some msg ∧ sentOf 16 m = some inner := by
  simp only [bothWays, Option.bind_eq_bind, Option.bind_eq_some_iff, Option.pure_def,
    Option.some.injEq, Prod.mk.injEq] at h
  obtain ⟨_, hdecode, _, hconsumed, _, hsent, rfl, rfl, rfl⟩ := h
  exact ⟨hdecode, hconsumed, hsent⟩

/-- **The first retry of the consumer's is another one**: it has no identifier. -/
theorem fallback_forgets :
    ¬ ∀ (unzip : ByteArr → Option ByteArr) (cfg : MessageStoreConfig) (group : Text)
      (m msg : MessageExt) (bs : Bytes) (p : Producer) (r : Receiver) (env env' : Env)
      (minOffset maxOffset : Int64) (inner : MessageExtBrokerInner) (retryMaxTimes : Int32)
      (earlier : List Attempt) (last : Attempt), decode bs = some m →
      consumed unzip group minOffset maxOffset m = some msg → Deliverable m.sysFlag →
      regularExpressionMatcher m.topic = true → m.reconsumeTimes < retryMaxTimes →
      SentBackAs group retryMaxTimes m inner → last.found = true →
      (∀ a b, p.zip a = some b → unzip b = some a) →
      Agree unzip (stored cfg env inner)
        ((fallback p r group earlier last msg).bind (stored cfg env')) := by
  intro h
  have hrun : (bothWays (messageTo "T".toList)).map (fun run =>
      decide (Deliverable run.1.sysFlag ∧ regularExpressionMatcher run.1.topic = true ∧
        run.1.reconsumeTimes < 16) &&
      (stored config zeroEnv run.2.2).all (fun a => ((fallback smallProducer plainReceiver
        "G".toList [] oneAttempt run.2.1).bind (stored config zeroEnv)).all fun b =>
          (storedProps b).get PROPERTY_ORIGIN_MESSAGE_ID !=
            (storedProps a).get PROPERTY_ORIGIN_MESSAGE_ID)) = some true := by
    decide +kernel
  obtain ⟨⟨m, msg, inner⟩, hways, hchecks⟩ := Option.map_eq_some_iff.mp hrun
  obtain ⟨hdecode, hconsumed, hsent⟩ := bothWays_some hways
  obtain ⟨hinput, hdiffers⟩ := Bool.and_eq_true_iff.mp hchecks
  obtain ⟨hdeliverable, hname, htimes⟩ := of_decide_eq_true hinput
  obtain ⟨a, b, ha, hb, hsame⟩ := h some config "G".toList m msg _ smallProducer plainReceiver
    zeroEnv zeroEnv 0 1 inner 16 [] oneAttempt hdecode hconsumed hdeliverable hname htimes
    (sentBackAs_of_sentOf hsent) rfl fun _ _ hzip => hzip.symm
  rw [ha, Option.all_some, hb, Option.all_some, hsame.originMessageId, bne_self_eq_false]
    at hdiffers
  cases hdiffers

/-- A message with an identifier, in a store whose highest level is the third. -/
theorem agree_iff_own : ∃ m msg inner, bothWays ownMessage = some (m, msg, inner) ∧
    Agree some (stored config zeroEnv inner) ((fallback smallProducer plainReceiver "G".toList []
      oneAttempt msg).bind (stored config zeroEnv)) := by
  have hrun : (bothWays ownMessage).map (fun run =>
      decide (Deliverable run.1.sysFlag ∧ regularExpressionMatcher run.1.topic = true ∧
        run.1.reconsumeTimes < 16) &&
      decide (checkBody smallProducer run.2.1.body = true ∧ isPrepared run.1.properties = false ∧
        run.1.reconsumeTimes = 0 ∧ run.1.getProperty PROPERTY_ORIGIN_MESSAGE_ID =
          some "7F00000100002A9F0000000000000000".toList ∧
        run.1.getProperty PROPERTY_RETRY_TOPIC = none)) = some true := by
    decide +kernel
  obtain ⟨⟨m, msg, inner⟩, hways, hchecks⟩ := Option.map_eq_some_iff.mp hrun
  obtain ⟨hdecode, hconsumed, hsent⟩ := bothWays_some hways
  obtain ⟨hinput, hsame⟩ := Bool.and_eq_true_iff.mp hchecks
  obtain ⟨hdeliverable, hname, htimes⟩ := of_decide_eq_true hinput
  obtain ⟨hbody, hprepared, hzero, hid, hretry⟩ := of_decide_eq_true hsame
  dsimp only at hbody hprepared hzero hid hretry
  refine ⟨m, msg, inner, hways, (agree_iff hdecode hconsumed hdeliverable hname htimes
    (sentBackAs_of_sentOf hsent) rfl fun _ _ hzip => hzip.symm).mpr ?_⟩
  refine ⟨by decide, hbody, hprepared, fun h => (by cases h), ?_, ⟨_, hid, by decide⟩, .inl hretry,
    .inl fun a ha => by cases ha⟩
  rw [hzero]
  decide

end CloudMQ.SendBackPaths
