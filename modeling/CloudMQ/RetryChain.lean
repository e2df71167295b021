import CloudMQ.SendMessageBack
import CloudMQ.ScheduleMessage

/-!
Retries: a message that is sent back again and again, and delivered through the delay queue each
time.

Every copy carries what it should, and has the level of its number. But the level stays among the
properties of a copy that was delivered, and the broker that sends the last copy to the dead letters
leaves it there; so the store takes the dead letter for a delayed message. The identifier of the
first message is not in the properties string of a dead letter that is stored at once.
-/

namespace CloudMQ.RetryChain

open CloudMQ.Buffer CloudMQ.Utf8 CloudMQ.Strings CloudMQ.Message CloudMQ.Record CloudMQ.Codec
open CloudMQ.CommitLog CloudMQ.SlaveSync CloudMQ.Agreement CloudMQ.Properties
open CloudMQ.MessageDecoder CloudMQ.SendMessageBack

/-! ### One retry -/

/-- The message, as the delay queue looks at it. -/
def ofMessageExt (msgExt : MessageExt) : ScheduleMessage.MessageExt where
  body := msgExt.body
  flag := msgExt.flag
  properties := msgExt.properties
  sysFlag := msgExt.sysFlag
  bornTimestamp := msgExt.bornTimestamp
  bornHost := msgExt.bornHost
  storeHost := msgExt.storeHost
  reconsumeTimes := msgExt.reconsumeTimes

/-- What the delay queue puts for a message; without a topic the put throws. -/
def timeupInner (order : EntryOrder) (msgExt : MessageExt) : Option MessageExtBrokerInner := do
  let m ← ScheduleMessage.messageTimeup order (ofMessageExt msgExt)
  let topic ← m.topic
  return {
    topic := topic
    flag := m.flag
    properties := m.properties
    body := m.body
    queueId := m.queueId
    queueOffset := 0
    sysFlag := m.sysFlag
    bornTimestamp := m.bornTimestamp
    bornHost := m.bornHost
    storeTimestamp := 0
    storeHost := m.storeHost
    bodyCRC := 0
    reconsumeTimes := m.reconsumeTimes
    preparedTransactionOffset := 0
    propertiesString := some m.propertiesString
    tagsCode := m.tagsCode }

/-- The records of a copy: in the schedule topic, and where it was delivered. -/
structure Copy where
  waiting : MessageExtBrokerInner
  delivered : MessageExtBrokerInner

/-- The broker puts the message for a consumer of the group, without a level of the consumer's. -/
def SentBackAs (group : Text) (retryMaxTimes : Int32) (msgExt : MessageExt)
    (m : MessageExtBrokerInner) : Prop :=
  ∃ (b : Broker) (requestHeader : ConsumerSendMsgBackRequestHeader) (c : SubscriptionGroupConfig),
    requestHeader.group = group ∧ requestHeader.delayLevel = 0 ∧
    b.findSubscriptionGroupConfig group = some c ∧ c.retryMaxTimes = retryMaxTimes ∧
    b.lookMessageByOffset requestHeader.offset = .ok (some msgExt) ∧
    sendBack b requestHeader = .put m

/-- One round: sent back, stored, read by the delay queue, put and stored again, read by the next
consumer. Records that do not fit are not read back. -/
structure Retried (cfg : MessageStoreConfig) (group : Text) (retryMaxTimes : Int32)
    (msgExt : MessageExt) (copy : Copy) (next : MessageExt) : Prop where
  sent : ∃ env m, SentBackAs group retryMaxTimes msgExt m ∧ stored cfg env m = some copy.waiting
  waits : copy.waiting.topic = SCHEDULE_TOPIC
  fits : Fits copy.waiting
  timeup : ∃ env order waiting m, DecodedFrom copy.waiting waiting ∧
    timeupInner order waiting = some m ∧ stored cfg env m = some copy.delivered
  fits' : Fits copy.delivered
  read : DecodedFrom copy.delivered next

/-- The copies of a message, and the message that is read last. -/
inductive Chain (cfg : MessageStoreConfig) (group : Text) (retryMaxTimes : Int32)
    (first : MessageExt) : List Copy → MessageExt → Prop
  | first : Chain cfg group retryMaxTimes first [] first
  | retried {copies : List Copy} {last next : MessageExt} {copy : Copy} :
    Chain cfg group retryMaxTimes first copies last →
    Retried cfg group retryMaxTimes last copy next →
    Chain cfg group retryMaxTimes first (copies ++ [copy]) next

/-! ### What is promised -/

/-- The record is one of the first message. -/
structure Carries (first : MessageExt) (record : MessageExtBrokerInner) : Prop where
  retryTopic : (storedProps record).get PROPERTY_RETRY_TOPIC = some first.topic
  originMessageId : (storedProps record).get PROPERTY_ORIGIN_MESSAGE_ID = some (getMsgId first)
  body : record.body = first.body
  keys : (storedProps record).get PROPERTY_KEYS = first.getProperty PROPERTY_KEYS
  tags : (storedProps record).get PROPERTY_TAGS = first.getProperty PROPERTY_TAGS
  flag : record.flag = first.flag

/-- The copy with the number. Levels above the highest count as the highest. -/
structure GoodCopy (svc : ScheduleMessageService) (group : Text) (first : MessageExt) (number : ℕ)
    (copy : Copy) : Prop where
  topic : copy.delivered.topic = getRetryTopic group
  reconsumeTimes : copy.delivered.reconsumeTimes.toInt = number
  level : ∃ t level, (storedProps copy.waiting).get PROPERTY_DELAY_TIME_LEVEL = some t ∧
    parseInt t = some level ∧ level.toInt = min (3 + (number - 1 : ℤ)) svc.getMaxDelayLevel.toInt
  carries : Carries first copy.delivered

/-- **The chain is as it should be**, `dead` being the record of the dead letter, if it was
stored. -/
structure GoodChain (cfg : MessageStoreConfig) (group : Text) (first : MessageExt)
    (copies : List Copy) (dead : Option MessageExtBrokerInner) : Prop where
  copies : ∀ i copy, copies[i]? = some copy →
    GoodCopy cfg.scheduleMessageService group first (i + 1) copy
  dead : ∃ record, dead = some record ∧ record.topic = getDLQTopic group ∧ Carries first record

/-- The message has no delay: a store that would look at its level finds none above zero. -/
def Undelayed (msgExt : MessageExt) : Prop :=
  getTransactionValue msgExt.sysFlag = TransactionNotType ∨
    getTransactionValue msgExt.sysFlag = TransactionCommitType →
  ∀ t, msgExt.getProperty PROPERTY_DELAY_TIME_LEVEL = some t →
    ∃ level, parseInt t = some level ∧ level ≤ 0

/-- The topic comes with the message already, or can be written among its properties. -/
def RetryTopicKept (msgExt : MessageExt) : Prop :=
  msgExt.getProperty PROPERTY_RETRY_TOPIC = some msgExt.topic ∨
    msgExt.getProperty PROPERTY_RETRY_TOPIC = none ∧ CleanValue msgExt.topic

/-! ### What is put for a message -/

variable {cfg : MessageStoreConfig} {group : Text} {retryMaxTimes : Int32}
  {msgExt next first last : MessageExt} {copy : Copy} {copies : List Copy}
  {m : MessageExtBrokerInner}

/-- The topic a message comes from. -/
def retryTopicOf (msgExt : MessageExt) : Text :=
  (msgExt.getProperty PROPERTY_RETRY_TOPIC).getD msgExt.topic

lemma get_retryProperties_retryTopic :
    (retryProperties msgExt).get PROPERTY_RETRY_TOPIC = some (retryTopicOf msgExt) := by
  refine (Props.get_put_of_ne _ (by decide)).trans ?_
  rw [retryTopicOf]
  cases h : msgExt.getProperty PROPERTY_RETRY_TOPIC with
  | none => exact Props.get_put_self _ _ _
  | some t => exact h

lemma get_retryProperties {name : Text} (hretry : PROPERTY_RETRY_TOPIC ≠ name)
    (hwait : PROPERTY_WAIT_STORE_MSG_OK ≠ name) :
    (retryProperties msgExt).get name = msgExt.getProperty name := by
  refine (Props.get_put_of_ne _ hwait).trans ?_
  cases msgExt.getProperty PROPERTY_RETRY_TOPIC with
  | none => exact Props.get_put_of_ne _ hretry
  | some t => rfl

/-- What is needed to write the properties of the copy. -/
structure Writable (msgExt : MessageExt) : Prop where
  properties : CleanProps msgExt.properties
  topic : msgExt.getProperty PROPERTY_RETRY_TOPIC = none → CleanValue msgExt.topic

lemma clean_retryProperties (h : Writable msgExt) : CleanProps (retryProperties msgExt) := by
  have hfalse : CleanValue "false".toList := ⟨by decide, by decide, by decide⟩
  refine CleanProps.put ?_ (by decide) hfalse
  cases hget : msgExt.getProperty PROPERTY_RETRY_TOPIC with
  | none => exact h.properties.put (by decide) (h.topic hget)
  | some t => exact h.properties

/-- Up to the last retry the copy goes to the retry topic, then to the dead letters. -/
lemma sentBackAs_cases (h : SentBackAs group retryMaxTimes msgExt m) :
    ∃ b queueIdInt, m = if retryMaxTimes ≤ msgExt.reconsumeTimes then
        msgInner b msgExt (getDLQTopic group) queueIdInt (retryProperties msgExt)
      else msgInner b msgExt (getRetryTopic group) queueIdInt ((retryProperties msgExt).put
        PROPERTY_DELAY_TIME_LEVEL (valueOf (3 + msgExt.reconsumeTimes))) := by
  obtain ⟨b, requestHeader, c, rfl, hlevel, hc, rfl, hlook, hput⟩ := h
  obtain ⟨c', msgExt', hc', hlook', rfl⟩ := sendBack_put hput
  rw [hc, Option.some.injEq] at hc'
  rw [hlook, Except.ok.injEq, Option.some.injEq] at hlook'
  obtain rfl := hc'
  obtain rfl := hlook'
  have hdead : Dead requestHeader c msgExt ↔ c.retryMaxTimes ≤ msgExt.reconsumeTimes := by
    rw [Dead, hlevel]
    exact or_iff_left (by decide)
  by_cases htimes : c.retryMaxTimes ≤ msgExt.reconsumeTimes
  · refine ⟨b, randomQueueId b.nextInt2 DLQ_NUMS_PER_GROUP, ?_⟩
    rw [if_pos htimes, if_pos (hdead.mpr htimes), deadInner]
  · refine ⟨b, randomQueueId b.nextInt1 c.retryQueueNums, ?_⟩
    rw [if_neg htimes, if_neg (mt hdead.mp htimes), retryInner, retryLevel, if_pos hlevel]

/-! ### One round -/

/-- A message of the delay queue, as it is delivered. -/
structure Delivered (waiting : MessageExt) (record : MessageExtBrokerInner) : Prop where
  topic : waiting.getProperty PROPERTY_REAL_TOPIC = some record.topic
  flag : record.flag = waiting.flag
  body : record.body = waiting.body
  sysFlag : record.sysFlag = waiting.sysFlag
  reconsumeTimes : record.reconsumeTimes = waiting.reconsumeTimes
  properties : ∀ name, (storedProps record).get name = waiting.getProperty name

/-- The delay is cleared in the map, not in the string; so the message is stored at once, and keeps
its level. -/
lemma delivered_of_timeup {order : EntryOrder} {env : Env} {waiting : MessageExt}
    {record : MessageExtBrokerInner} (hclean : CleanProps waiting.properties)
    (h : timeupInner order waiting = some m) (hstored : stored cfg env m = some record) :
    Delivered waiting record := by
  simp only [timeupInner, ScheduleMessage.messageTimeup, Option.bind_eq_bind,
    Option.bind_eq_some_iff, Option.pure_def, Option.some.injEq] at h
  obtain ⟨inner, ⟨queueId, -, rfl⟩, topic, htopic, rfl⟩ := h
  rw [stored_at_once, Option.some.injEq] at hstored
  · subst hstored
    refine ⟨?_, rfl, rfl, rfl, rfl, fun name => get_storedProps hclean rfl name⟩
    change waiting.properties.get PROPERTY_REAL_TOPIC = some topic
    rw [← htopic]
    exact ((get_erase_of_ne (by decide)).trans (Props.get_put_of_ne _ (by decide))).symm
  · exact isDelayed_of_none (get_erase_self _ _)

/-- What a round leaves. -/
structure Passed (cfg : MessageStoreConfig) (group : Text) (msgExt : MessageExt) (copy : Copy)
    (next : MessageExt) : Prop where
  topic : copy.delivered.topic = getRetryTopic group
  flag : copy.delivered.flag = msgExt.flag
  body : copy.delivered.body = if (msgExt.body.map Subtype.val).getD [] = [] then none
    else msgExt.body
  reconsumeTimes : copy.delivered.reconsumeTimes = msgExt.reconsumeTimes + 1
  sysFlag : getTransactionValue copy.delivered.sysFlag = TransactionNotType ∨
    getTransactionValue copy.delivered.sysFlag = TransactionCommitType
  pos : 0 < (3 + msgExt.reconsumeTimes)
  waitingLevel : (storedProps copy.waiting).get PROPERTY_DELAY_TIME_LEVEL =
    some (valueOf (cfg.scheduleMessageService.capLevel (3 + msgExt.reconsumeTimes)))
  level : (storedProps copy.delivered).get PROPERTY_DELAY_TIME_LEVEL =
    some (valueOf (cfg.scheduleMessageService.capLevel (3 + msgExt.reconsumeTimes)))
  retryTopic : (storedProps copy.delivered).get PROPERTY_RETRY_TOPIC =
    some (retryTopicOf msgExt)
  originMessageId : (storedProps copy.delivered).get PROPERTY_ORIGIN_MESSAGE_ID =
    some (originMsgId msgExt)
  keys : (storedProps copy.delivered).get PROPERTY_KEYS = msgExt.getProperty PROPERTY_KEYS
  tags : (storedProps copy.delivered).get PROPERTY_TAGS = msgExt.getProperty PROPERTY_TAGS
  next : FoundAs copy.delivered next

lemma clean_storedProps (record : MessageExtBrokerInner) : CleanProps (storedProps record) :=
  clean_string2messageProperties _

/-- A copy that waits had a level. -/
lemma delayed_of_waits {env : Env} {record : MessageExtBrokerInner} (h : m.topic ≠ SCHEDULE_TOPIC)
    (hstored : stored cfg env m = some record) (hwaits : record.topic = SCHEDULE_TOPIC) :
    isDelayed m = some true := by
  cases hdelayed : isDelayed m with
  | none => rw [stored_eq, hdelayed] at hstored; cases hstored
  | some delayed =>
    cases delayed with
    | true => rfl
    | false =>
      rw [stored_at_once hdelayed, Option.some.injEq] at hstored
      subst hstored
      exact absurd hwaits h

lemma isDelayed_true (h : isDelayed m = some true) :
    (getTransactionValue m.sysFlag = TransactionNotType ∨
      getTransactionValue m.sysFlag = TransactionCommitType) ∧
    ∃ level, m.getDelayTimeLevel = some level ∧ 0 < level := by
  unfold isDelayed at h
  dsimp only at h
  split_ifs at h with htran
  · obtain ⟨level, hlevel, hpos⟩ := Option.map_eq_some_iff.mp h
    exact ⟨htran, level, hlevel, of_decide_eq_true hpos⟩
  · cases h

/-- The topics of retries and of dead letters are not the one of delays. -/
lemma ne_schedule {topic : Text} (hhead : topic.head? = some '%') : topic ≠ SCHEDULE_TOPIC := by
  rintro rfl
  cases hhead

/-- **One round.** -/
theorem passed_of_retried (h : Retried cfg group retryMaxTimes msgExt copy next)
    (hwritable : Writable msgExt) (hgroup : CleanValue (getRetryTopic group))
    (htimes : ¬ retryMaxTimes ≤ msgExt.reconsumeTimes) : Passed cfg group msgExt copy next := by
  obtain ⟨env, m, hsent, hstored⟩ := h.sent
  obtain ⟨b, queueIdInt, hm⟩ := sentBackAs_cases hsent
  rw [if_neg htimes] at hm
  subst hm
  have hclean : CleanProps ((retryProperties msgExt).put PROPERTY_DELAY_TIME_LEVEL
      (valueOf (3 + msgExt.reconsumeTimes))) :=
    (clean_retryProperties hwritable).put (by decide) (clean_valueOf _)
  -- the copy waits with its level
  have hdelayed := delayed_of_waits (ne_schedule rfl) hstored h.waits
  obtain ⟨htran, level, hlevel, hpos⟩ := isDelayed_true hdelayed
  have hdelay : (msgInner b msgExt (getRetryTopic group) queueIdInt ((retryProperties msgExt).put
      PROPERTY_DELAY_TIME_LEVEL (valueOf (3 + msgExt.reconsumeTimes)))).properties.get
        PROPERTY_DELAY_TIME_LEVEL = some (valueOf (3 + msgExt.reconsumeTimes)) :=
    (Props.get_put_of_ne _ (by decide)).trans (Props.get_put_self _ _ _)
  have hw := waiting_of_delayed hdelayed hdelay hstored
  have hlevel' : level = 3 + msgExt.reconsumeTimes := by
    rw [MessageExtBrokerInner.getDelayTimeLevel, MessageExtBrokerInner.getProperty,
      hdelay] at hlevel
    dsimp only at hlevel
    rw [parseInt_valueOf_self, Option.some.injEq] at hlevel
    exact hlevel.symm
  subst hlevel'
  have hread := get_storedProps (hw.clean (hclean.put (by decide)
    (clean_originMsgId hwritable.properties)) hgroup) hw.written
  -- and is delivered with it
  obtain ⟨env', order, waiting, m', hfrom, htimeup, hstored'⟩ := h.timeup
  have hfound := foundAs_of_decodedFrom h.fits hfrom
  have hd := delivered_of_timeup (hfound.properties ▸ clean_storedProps copy.waiting) htimeup
    hstored'
  have hprops : ∀ name, (storedProps copy.delivered).get name =
      copy.waiting.properties.get name := by
    intro name
    rw [hd.properties, MessageExt.getProperty, hfound.properties, hread]
  have hother : ∀ name ∉ scheduleNames, PROPERTY_ORIGIN_MESSAGE_ID ≠ name →
      (storedProps copy.delivered).get name = (retryProperties msgExt).get name := by
    intro name hname horigin
    rw [hprops, hw.other name hname]
    refine (Props.get_put_of_ne _ horigin).trans (Props.get_put_of_ne _ ?_)
    intro heq
    exact hname (heq ▸ List.mem_cons_self)
  refine ⟨?_, ?_, ?_, ?_, ?_, hpos, (hread _).trans hw.delay, (hprops _).trans hw.delay, ?_, ?_,
    ?_, ?_, foundAs_of_decodedFrom h.fits' h.read⟩
  · have htopic := hd.topic
    rw [MessageExt.getProperty, hfound.properties, hread, hw.realTopic, Option.some.injEq] at htopic
    exact htopic.symm
  · rw [hd.flag, hfound.flag, hw.flag]
    rfl
  · rw [hd.body, hfound.body, MessageExtBrokerInner.bodyBytes, hw.body]
    rfl
  · rw [hd.reconsumeTimes, hfound.reconsumeTimes, hw.reconsumeTimes]
    rfl
  · rw [hd.sysFlag, hfound.sysFlag, hw.sysFlag]
    exact htran
  · rw [hother _ (by decide) (by decide), get_retryProperties_retryTopic]
  · rw [hprops, hw.other _ (by decide)]
    exact Props.get_put_self _ _ _
  · rw [hother _ (by decide) (by decide), get_retryProperties (by decide) (by decide)]
  · rw [hother _ (by decide) (by decide), get_retryProperties (by decide) (by decide)]

/-! ### All rounds -/

/-- A body that is read is not empty. -/
def WholeBody (msgExt : MessageExt) : Prop := msgExt.body.map Subtype.val ≠ some []

lemma WholeBody.body_eq (h : WholeBody msgExt) :
    (if (msgExt.body.map Subtype.val).getD [] = [] then none else msgExt.body) = msgExt.body := by
  unfold WholeBody at h
  cases hbody : msgExt.body with
  | none => rfl
  | some b =>
    rw [hbody] at h
    exact if_neg fun hnil => h (congrArg some hnil)

lemma wholeBody_of_decodeBody {bs rest : Bytes} {body : Option ByteArr}
    (h : decodeBody.run bs = some (body, rest)) : body.map Subtype.val ≠ some [] := by
  obtain ⟨bodyLen, mid, -, h⟩ := Reader.run_bind_eq_some h
  split at h
  · next hpos =>
    obtain ⟨bytes, mid', hbytes, h⟩ := Reader.run_bind_eq_some h
    obtain ⟨-, hlen⟩ := getBytes_eq_some hbytes
    simp only [Reader.run_pure, Option.some.injEq, Prod.mk.injEq] at h
    rw [← h.1, toByteArr]
    split_ifs with hlt
    · rw [Option.map_some, ne_eq, Option.some.injEq]
      rintro rfl
      rw [List.length_nil] at hlen
      omega
    · exact Option.some_ne_none _ |>.symm
  · simp only [Reader.run_pure, Option.some.injEq, Prod.mk.injEq] at h
    rw [← h.1]
    exact Option.some_ne_none _ |>.symm

lemma clean_of_decodeProperties {bs rest : Bytes} {p : Props}
    (h : decodeProperties.run bs = some (p, rest)) : CleanProps p := by
  obtain ⟨propertiesLength, mid, -, h⟩ := Reader.run_bind_eq_some h
  split at h
  · obtain ⟨bytes, mid', -, h⟩ := Reader.run_bind_eq_some h
    simp only [Reader.run_pure, Option.some.injEq, Prod.mk.injEq] at h
    rw [← h.1]
    exact clean_string2messageProperties _
  · simp only [Reader.run_pure, Option.some.injEq, Prod.mk.injEq] at h
    rw [← h.1]
    exact fun e he => absurd he List.not_mem_nil

/-- What was decoded has clean properties and a whole body. -/
lemma readable_of_decode {bs : Bytes} (h : decode bs = some msgExt) :
    CleanProps msgExt.properties ∧ WholeBody msgExt := by
  obtain ⟨⟨msgExt', left⟩, hrun, rfl⟩ := Option.map_eq_some_iff.mp h
  iterate 14 obtain ⟨_, _, -, hrun⟩ := Reader.run_bind_eq_some hrun
  obtain ⟨body, b₁₅, hbody, hrun⟩ := Reader.run_bind_eq_some hrun
  obtain ⟨topic, b₁₆, -, hrun⟩ := Reader.run_bind_eq_some hrun
  obtain ⟨properties, b₁₇, hproperties, hrun⟩ := Reader.run_bind_eq_some hrun
  simp only [Reader.run_pure, Option.some.injEq, Prod.mk.injEq] at hrun
  rw [← hrun.1]
  exact ⟨clean_of_decodeProperties hproperties, wholeBody_of_decodeBody hbody⟩

/-- A copy, whatever the first message carried already. -/
structure CopyOf (svc : ScheduleMessageService) (group : Text) (first : MessageExt) (number : ℕ)
    (copy : Copy) : Prop where
  topic : copy.delivered.topic = getRetryTopic group
  reconsumeTimes : copy.delivered.reconsumeTimes.toInt = number
  level : ∃ t level, (storedProps copy.waiting).get PROPERTY_DELAY_TIME_LEVEL = some t ∧
    parseInt t = some level ∧ level.toInt = min (3 + (number - 1 : ℤ)) svc.getMaxDelayLevel.toInt
  retryTopic : (storedProps copy.delivered).get PROPERTY_RETRY_TOPIC = some (retryTopicOf first)
  originMessageId : (storedProps copy.delivered).get PROPERTY_ORIGIN_MESSAGE_ID =
    some (originMsgId first)
  body : copy.delivered.body = first.body
  keys : (storedProps copy.delivered).get PROPERTY_KEYS = first.getProperty PROPERTY_KEYS
  tags : (storedProps copy.delivered).get PROPERTY_TAGS = first.getProperty PROPERTY_TAGS
  flag : copy.delivered.flag = first.flag

/-- The message that is read last, and the copies before it. -/
structure Kept (svc : ScheduleMessageService) (group : Text) (first : MessageExt)
    (copies : List Copy) (last : MessageExt) : Prop where
  writable : Writable last
  body : last.body = first.body
  flag : last.flag = first.flag
  keys : last.getProperty PROPERTY_KEYS = first.getProperty PROPERTY_KEYS
  tags : last.getProperty PROPERTY_TAGS = first.getProperty PROPERTY_TAGS
  retryTopic : retryTopicOf last = retryTopicOf first
  originMessageId : originMsgId last = originMsgId first
  reconsumeTimes : last.reconsumeTimes.toInt = copies.length
  delay : copies ≠ [] → (getTransactionValue last.sysFlag = TransactionNotType ∨
      getTransactionValue last.sysFlag = TransactionCommitType) ∧
    ∃ level, 0 < level ∧ last.getProperty PROPERTY_DELAY_TIME_LEVEL = some (valueOf level)
  copies : ∀ i copy, copies[i]? = some copy → CopyOf svc group first (i + 1) copy

lemma toInt_capLevel (svc : ScheduleMessageService) (level : Int32) :
    (svc.capLevel level).toInt = min level.toInt svc.getMaxDelayLevel.toInt := by
  unfold ScheduleMessageService.capLevel
  split_ifs with h
  · have := Int32.lt_iff_toInt_lt.mp h
    omega
  · have := Int32.le_iff_toInt_le.mp (Int32.not_lt.mp h)
    omega

lemma capLevel_pos (svc : ScheduleMessageService) {level : Int32} (h : 0 < level) :
    0 < svc.capLevel level := by
  have hpos : (0 : Int32).toInt < level.toInt := Int32.lt_iff_toInt_lt.mp h
  have hmax := svc.getMaxDelayLevel_pos
  have hcap := toInt_capLevel svc level
  refine Int32.lt_iff_toInt_lt.mpr ?_
  change (0 : ℤ) < _ at hpos ⊢
  omega

/-- A number of retries that was not reached leaves room for one more. -/
lemma toInt_add_one {n bound : Int32} (h : n.toInt < bound.toInt) :
    (n + 1).toInt = n.toInt + 1 := by
  have := bound.toInt_lt
  have := n.le_toInt
  rw [Int32.toInt_add, Int32.toInt_one]
  exact Int.bmod_eq_of_le (by omega) (by omega)

/-- A level that is above zero did not overflow. -/
lemma toInt_level {n : Int32} (hn : 0 ≤ n.toInt) (h : 0 < 3 + n) : (3 + n).toInt = 3 + n.toInt := by
  have hpos : (0 : Int32).toInt < (3 + n).toInt := Int32.lt_iff_toInt_lt.mp h
  have := n.toInt_lt
  rw [Int32.toInt_add] at hpos ⊢
  change (0 : ℤ) < (3 + n.toInt).bmod (2 ^ 32) at hpos
  change (3 + n.toInt).bmod (2 ^ 32) = 3 + n.toInt
  rw [Int.bmod_def] at hpos ⊢
  split_ifs at hpos ⊢ <;> omega

section Rounds

variable {svc : ScheduleMessageService}

lemma kept_first (hwritable : Writable first) (htimes : first.reconsumeTimes = 0) :
    Kept svc group first [] first where
  writable := hwritable
  body := rfl
  flag := rfl
  keys := rfl
  tags := rfl
  retryTopic := rfl
  originMessageId := rfl
  reconsumeTimes := by rw [htimes]; rfl
  delay := fun h => absurd rfl h
  copies := fun _ _ h => by cases h

lemma originMsgId_of_get {id : Text} (hget : next.getProperty PROPERTY_ORIGIN_MESSAGE_ID = some id)
    (hblank : isBlank id = false) : originMsgId next = id := by
  rw [originMsgId, hget]
  exact if_neg (by rw [hblank]; exact Bool.false_ne_true)

lemma Passed.get (h : Passed cfg group msgExt copy next) (name : Text) :
    next.getProperty name = (storedProps copy.delivered).get name := by
  rw [MessageExt.getProperty, h.next.properties]

/-- The copy of one more round. -/
lemma Passed.copyOf (hkept : Kept cfg.scheduleMessageService group first copies last)
    (hbody : WholeBody first) (hbound : last.reconsumeTimes.toInt < retryMaxTimes.toInt)
    (h : Passed cfg group last copy next) :
    CopyOf cfg.scheduleMessageService group first (copies.length + 1) copy := by
  have hnonneg : 0 ≤ last.reconsumeTimes.toInt := by
    rw [hkept.reconsumeTimes]
    exact Int.natCast_nonneg _
  refine ⟨h.topic, ?_, ⟨_, _, h.waitingLevel, parseInt_valueOf_self _, ?_⟩, ?_, ?_, ?_, ?_, ?_, ?_⟩
  · rw [h.reconsumeTimes, toInt_add_one hbound, hkept.reconsumeTimes, Nat.cast_succ]
  · rw [toInt_capLevel, toInt_level hnonneg h.pos, hkept.reconsumeTimes, Nat.cast_succ,
      add_sub_cancel_right]
  · rw [h.retryTopic, hkept.retryTopic]
  · rw [h.originMessageId, hkept.originMessageId]
  · rw [h.body, hkept.body, hbody.body_eq]
  · rw [h.keys, hkept.keys]
  · rw [h.tags, hkept.tags]
  · rw [h.flag, hkept.flag]

/-- **One round keeps what is promised of the copies.** -/
lemma kept_retried (hkept : Kept cfg.scheduleMessageService group first copies last)
    (hbody : WholeBody first) (hgroup : CleanValue (getRetryTopic group))
    (hbound : last.reconsumeTimes.toInt < retryMaxTimes.toInt)
    (h : Retried cfg group retryMaxTimes last copy next) :
    Kept cfg.scheduleMessageService group first (copies ++ [copy]) next := by
  have htimes : ¬ retryMaxTimes ≤ last.reconsumeTimes := fun hle =>
    absurd (Int32.le_iff_toInt_le.mp hle) (not_le.mpr hbound)
  have hp := passed_of_retried h hkept.writable hgroup htimes
  have hcopy := hp.copyOf hkept hbody hbound
  have hretry : next.getProperty PROPERTY_RETRY_TOPIC = some (retryTopicOf first) :=
    (hp.get _).trans hcopy.retryTopic
  have horigin : next.getProperty PROPERTY_ORIGIN_MESSAGE_ID = some (originMsgId first) :=
    (hp.get _).trans hcopy.originMessageId
  refine ⟨⟨?_, ?_⟩, ?_, ?_, (hp.get _).trans hcopy.keys, (hp.get _).trans hcopy.tags, ?_, ?_, ?_,
    fun _ => ⟨?_, _, capLevel_pos _ hp.pos, (hp.get _).trans hp.level⟩, ?_⟩
  · rw [hp.next.properties]
    exact clean_storedProps copy.delivered
  · intro hnone
    rw [hretry] at hnone
    cases hnone
  · rw [hp.next.body, MessageExtBrokerInner.bodyBytes, hcopy.body, hbody.body_eq]
  · rw [hp.next.flag, hcopy.flag]
  · rw [retryTopicOf, hretry]
    rfl
  · exact originMsgId_of_get horigin (isBlank_originMsgId first)
  · rw [hp.next.reconsumeTimes, hcopy.reconsumeTimes, List.length_append, List.length_singleton]
  · rw [hp.next.sysFlag]
    exact hp.sysFlag
  · intro i copy' hi
    rcases Nat.lt_or_ge i copies.length with hlt | hge
    · rw [List.getElem?_append_left hlt] at hi
      exact hkept.copies i copy' hi
    · rw [List.getElem?_append_right hge, List.getElem?_singleton] at hi
      split_ifs at hi with hzero
      · rw [Option.some.injEq] at hi
        subst hi
        rw [show i = copies.length by omega]
        exact hcopy

/-- **All rounds**: as long as there are no more than the group allows, every copy is right. -/
theorem kept_of_chain (hchain : Chain cfg group retryMaxTimes first copies last)
    (hwritable : Writable first) (hbody : WholeBody first)
    (hgroup : CleanValue (getRetryTopic group)) (htimes : first.reconsumeTimes = 0)
    (hlen : (copies.length : ℤ) ≤ retryMaxTimes.toInt) :
    Kept cfg.scheduleMessageService group first copies last := by
  induction hchain with
  | first => exact kept_first hwritable htimes
  | retried hchain hround ih =>
    rw [List.length_append, List.length_singleton, Nat.cast_succ] at hlen
    have hkept := ih (by omega)
    exact kept_retried hkept hbody hgroup (by rw [hkept.reconsumeTimes]; omega) hround

/-- **The copies are good** when the first message does not come with another topic or
identifier. -/
theorem goodCopies_of_chain (hchain : Chain cfg group retryMaxTimes first copies last)
    (hwritable : Writable first) (hbody : WholeBody first)
    (hgroup : CleanValue (getRetryTopic group)) (htimes : first.reconsumeTimes = 0)
    (hlen : (copies.length : ℤ) ≤ retryMaxTimes.toInt) (htopic : retryTopicOf first = first.topic)
    (hid : originMsgId first = getMsgId first) :
    ∀ i copy, copies[i]? = some copy →
      GoodCopy cfg.scheduleMessageService group first (i + 1) copy := by
  intro i copy hi
  have h := (kept_of_chain hchain hwritable hbody hgroup htimes hlen).copies i copy hi
  exact ⟨h.topic, h.reconsumeTimes, h.level, htopic ▸ h.retryTopic, hid ▸ h.originMessageId, h.body,
    h.keys, h.tags, h.flag⟩

end Rounds

/-! ### The dead letter -/

/-- The topic of a copy was read, so it can be written. -/
lemma clean_topic_of_chain (hchain : Chain cfg group retryMaxTimes first copies last) :
    ∀ copy ∈ copies, CleanValue copy.delivered.topic := by
  induction hchain with
  | first => exact fun _ h => absurd h List.not_mem_nil
  | retried hchain hround ih =>
    intro copy hmem
    rcases List.mem_append.mp hmem with hmem | hmem
    · exact ih copy hmem
    · obtain rfl := List.mem_singleton.mp hmem
      obtain ⟨env, order, waiting, m, hfrom, htimeup, hstored⟩ := hround.timeup
      have hclean : CleanProps waiting.properties :=
        (foundAs_of_decodedFrom hround.fits hfrom).properties ▸ clean_storedProps copy.waiting
      exact hclean.value (delivered_of_timeup hclean htimeup hstored).topic

/-- The copy for the dead letters has the delay of the message. -/
lemma isDelayed_dead {b : Broker} {topic : Text} {queueIdInt : Int32} :
    isDelayed (msgInner b msgExt topic queueIdInt (retryProperties msgExt)) =
      if getTransactionValue msgExt.sysFlag = TransactionNotType ∨
          getTransactionValue msgExt.sysFlag = TransactionCommitType then
        (match msgExt.getProperty PROPERTY_DELAY_TIME_LEVEL with
          | none => some 0
          | some t => parseInt t).map fun level => decide (0 < level)
      else some false := by
  have hget : (msgInner b msgExt topic queueIdInt (retryProperties msgExt)).getProperty
      PROPERTY_DELAY_TIME_LEVEL = msgExt.getProperty PROPERTY_DELAY_TIME_LEVEL :=
    (Props.get_put_of_ne _ (by decide)).trans (get_retryProperties (by decide) (by decide))
  unfold isDelayed MessageExtBrokerInner.getDelayTimeLevel
  rw [hget]
  rfl

lemma isDelayed_dead_eq_false {b : Broker} {topic : Text} {queueIdInt : Int32} :
    isDelayed (msgInner b msgExt topic queueIdInt (retryProperties msgExt)) = some false ↔
      Undelayed msgExt := by
  rw [isDelayed_dead, Undelayed]
  split_ifs with htran
  · rw [forall_prop_of_true htran]
    cases msgExt.getProperty PROPERTY_DELAY_TIME_LEVEL with
    | none => simp
    | some t => simp
  · exact iff_of_true rfl fun h => absurd h htran

/-- A dead letter is stored at once exactly if the message has no delay. -/
lemma stored_dead {b : Broker} {env : Env} {queueIdInt : Int32} {record : MessageExtBrokerInner}
    (h : stored cfg env (msgInner b msgExt (getDLQTopic group) queueIdInt
      (retryProperties msgExt)) = some record) (htopic : record.topic = getDLQTopic group) :
    Undelayed msgExt := by
  refine isDelayed_dead_eq_false.mp (?_ : isDelayed (msgInner b msgExt (getDLQTopic group)
    queueIdInt (retryProperties msgExt)) = some false)
  cases hdelayed : isDelayed (msgInner b msgExt (getDLQTopic group) queueIdInt
      (retryProperties msgExt)) with
  | none => rw [stored_eq, hdelayed] at h; cases h
  | some delayed =>
    cases delayed with
    | false => rfl
    | true =>
      exact absurd (htopic.symm.trans (topic_of_delayed hdelayed h)) (ne_schedule rfl)

/-- A message that was retried is delayed as a dead letter. -/
lemma not_undelayed_of_kept {svc : ScheduleMessageService}
    (hkept : Kept svc group first copies last) (hne : copies ≠ []) : ¬ Undelayed last := by
  obtain ⟨htran, level, hpos, hget⟩ := hkept.delay hne
  intro h
  obtain ⟨level', hparse, hle⟩ := h htran _ hget
  rw [parseInt_valueOf_self, Option.some.injEq] at hparse
  exact absurd hle (Int32.not_le.mpr (hparse ▸ hpos))

/-- The dead letter that is stored at once carries what the properties string says. -/
lemma carries_dead_iff {b : Broker} {env : Env} {queueIdInt : Int32}
    (hclean : CleanProps first.properties) :
    Carries first (stamp env (checksum env (msgInner b first (getDLQTopic group) queueIdInt
        (retryProperties first)))) ↔
      RetryTopicKept first ∧
        first.getProperty PROPERTY_ORIGIN_MESSAGE_ID = some (getMsgId first) := by
  generalize hrecord : stamp env (checksum env (msgInner b first (getDLQTopic group) queueIdInt
    (retryProperties first))) = record
  have hwritten : record.propertiesString = some (messageProperties2String b.entryOrder
      (retryProperties first)) := by rw [← hrecord]; rfl
  have hread : Writable first → ∀ name, (storedProps record).get name =
      (retryProperties first).get name := fun hw =>
    get_storedProps (clean_retryProperties hw) hwritten
  constructor
  · intro h
    have hw : Writable first :=
      ⟨hclean, fun _ => (clean_storedProps record).value h.retryTopic⟩
    refine ⟨?_, ?_⟩
    · have htopic := h.retryTopic
      rw [hread hw, get_retryProperties_retryTopic, Option.some.injEq, retryTopicOf] at htopic
      cases hget : first.getProperty PROPERTY_RETRY_TOPIC with
      | none => exact .inr ⟨hget, hw.topic hget⟩
      | some t =>
        rw [hget] at htopic
        exact .inl (hget.trans (congrArg some htopic))
    · rw [← h.originMessageId, hread hw, get_retryProperties (by decide) (by decide)]
  · rintro ⟨htopic, hid⟩
    have hw : Writable first := by
      refine ⟨hclean, fun hnone => ?_⟩
      rcases htopic with htopic | ⟨-, hclean⟩
      · rw [hnone] at htopic
        cases htopic
      · exact hclean
    have hof : retryTopicOf first = first.topic := by
      rcases htopic with htopic | ⟨hnone, -⟩
      · rw [retryTopicOf, htopic]; rfl
      · rw [retryTopicOf, hnone]; rfl
    refine ⟨?_, ?_, ?_, ?_, ?_, ?_⟩
    · rw [hread hw, get_retryProperties_retryTopic, hof]
    · rw [hread hw, get_retryProperties (by decide) (by decide), hid]
    · rw [← hrecord]; rfl
    · rw [hread hw, get_retryProperties (by decide) (by decide)]
    · rw [hread hw, get_retryProperties (by decide) (by decide)]
    · rw [← hrecord]; rfl

/-- **The retry chain** is as it should be exactly if there is no retry at all, and the message
comes without a delay and with its own identifier. -/
theorem goodChain_iff {bs : Bytes} {env : Env} (hdecoded : decode bs = some first)
    (htimes : first.reconsumeTimes = 0)
    (hchain : Chain cfg group retryMaxTimes first copies last)
    (hlen : (copies.length : ℤ) = retryMaxTimes.toInt)
    (hsent : SentBackAs group retryMaxTimes last m) :
    GoodChain cfg group first copies (stored cfg env m) ↔
      retryMaxTimes = 0 ∧ Undelayed first ∧ RetryTopicKept first ∧
        first.getProperty PROPERTY_ORIGIN_MESSAGE_ID = some (getMsgId first) := by
  obtain ⟨hclean, hbody⟩ := readable_of_decode hdecoded
  obtain ⟨b, queueIdInt, hm⟩ := sentBackAs_cases hsent
  cases hcopies : copies with
  | nil =>
    subst hcopies
    -- no retry: the message itself goes to the dead letters
    obtain rfl : first = last := by
      generalize hnil : ([] : List Copy) = copies at hchain
      cases hchain with
      | first => rfl
      | retried => exact absurd hnil.symm (List.append_ne_nil_of_right_ne_nil _ (by simp))
    have hzero : retryMaxTimes = 0 := Int32.toInt_inj.mp hlen.symm
    subst hzero
    rw [if_pos (by rw [htimes]; exact Int32.le_refl 0)] at hm
    subst hm
    rw [and_iff_right rfl]
    constructor
    · intro h
      obtain ⟨record, hstored, htopic, hcarries⟩ := h.dead
      have hundelayed := stored_dead hstored htopic
      rw [stored_at_once (isDelayed_dead_eq_false.mpr hundelayed), Option.some.injEq] at hstored
      subst hstored
      exact ⟨hundelayed, (carries_dead_iff hclean).mp hcarries⟩
    · rintro ⟨hundelayed, hkept⟩
      refine ⟨fun i copy hi => ?_, _, stored_at_once (isDelayed_dead_eq_false.mpr hundelayed), rfl,
        (carries_dead_iff hclean).mpr hkept⟩
      cases hi
  | cons copy rest =>
    -- the last copy still has its level
    refine iff_of_false (fun h => ?_) (fun h => ?_)
    · have hgood := h.copies 0 copy rfl
      have hwritable : Writable first :=
        ⟨hclean, fun _ => (clean_storedProps _).value hgood.carries.retryTopic⟩
      have hgroup : CleanValue (getRetryTopic group) := by
        rw [← hgood.topic]
        exact clean_topic_of_chain hchain copy (hcopies ▸ List.mem_cons_self)
      have hkept := kept_of_chain hchain hwritable hbody hgroup htimes hlen.le
      rw [if_pos (Int32.le_iff_toInt_le.mpr (by rw [hkept.reconsumeTimes, hlen]))] at hm
      subst hm
      obtain ⟨record, hstored, htopic, -⟩ := h.dead
      exact not_undelayed_of_kept hkept (hcopies ▸ List.cons_ne_nil _ _)
        (stored_dead hstored htopic)
    · rw [h.1, hcopies, List.length_cons] at hlen
      change ((rest.length + 1 : ℕ) : ℤ) = 0 at hlen
      omega

/-! ### One message, sent back twice -/

def hostBytes : Bytes := [127, 0, 0, 1] ++ putInt 10911

def bytesOf (m : MessageExtBrokerInner) : Bytes :=
  recordBytes m (Int32.ofNat (recordSize m)) hostBytes hostBytes 0 0

/-- A broker that finds the message, for groups that retry so often. -/
def brokerOf (retryMaxTimes : Int32) (msgExt : MessageExt) : Broker where
  findSubscriptionGroupConfig := fun _ => some { retryMaxTimes := retryMaxTimes }
  brokerPermission := 6
  brokerIP1 := "127.0.0.1".toList
  createTopicInSendMessageBackMethod := fun _ nums perm flag => some
    { readQueueNums := nums, writeQueueNums := nums, perm := perm, topicSysFlag := flag }
  lookMessageByOffset := fun _ => .ok (some msgExt)
  storeHost := host
  nextInt1 := 0
  nextInt2 := 0
  entryOrder := zeroEnv.entryOrder

def requestOf (group : Text) : ConsumerSendMsgBackRequestHeader := ⟨0, group, 0, false⟩

def sentOf (retryMaxTimes : Int32) (msgExt : MessageExt) : Option MessageExtBrokerInner :=
  match sendBack (brokerOf retryMaxTimes msgExt) (requestOf "G".toList) with
  | .put m => some m
  | _ => none

lemma sentBackAs_of_sentOf (h : sentOf retryMaxTimes msgExt = some m) :
    SentBackAs "G".toList retryMaxTimes msgExt m := by
  refine ⟨brokerOf retryMaxTimes msgExt, requestOf "G".toList, _, rfl, rfl, rfl, rfl, rfl, ?_⟩
  unfold sentOf at h
  split at h
  · next hput =>
    rw [Option.some.injEq] at h
    rw [hput, h]
  · cases h

/-- The round of a message. -/
def round (retryMaxTimes : Int32) (msgExt : MessageExt) : Option (Copy × MessageExt) := do
  let m ← sentOf retryMaxTimes msgExt
  let waiting ← stored config zeroEnv m
  let waitingExt ← decode (bytesOf waiting)
  let m' ← timeupInner zeroEnv.entryOrder waitingExt
  let delivered ← stored config zeroEnv m'
  let next ← decode (bytesOf delivered)
  return (⟨waiting, delivered⟩, next)

/-- Everything fits, and the message waited. -/
def wellPassed (copy : Copy) : Bool :=
  copy.waiting.topic = SCHEDULE_TOPIC ∧
    (copy.waiting.topicData.length ≤ 127 ∧ copy.waiting.propertiesData.length ≤ 32767) ∧
    copy.delivered.topicData.length ≤ 127 ∧ copy.delivered.propertiesData.length ≤ 32767

lemma decodedFrom_bytesOf (h : decode (bytesOf m) = some msgExt) : DecodedFrom m msgExt :=
  ⟨_, hostBytes, hostBytes, _, _, rfl, rfl, h⟩

lemma retried_of_round (h : round retryMaxTimes msgExt = some (copy, next))
    (hpassed : wellPassed copy) :
    Retried config "G".toList retryMaxTimes msgExt copy next := by
  simp only [round, Option.bind_eq_bind, Option.bind_eq_some_iff, Option.pure_def,
    Option.some.injEq, Prod.mk.injEq] at h
  obtain ⟨m, hm, waiting, hwaiting, waitingExt, hread, m', hm', delivered, hdelivered, next', hnext,
    rfl, rfl⟩ := h
  obtain ⟨htopic, hfits, hfits'⟩ := of_decide_eq_true hpassed
  exact ⟨⟨zeroEnv, m, sentBackAs_of_sentOf hm, hwaiting⟩, htopic, ⟨hfits.1, hfits.2⟩,
    ⟨zeroEnv, zeroEnv.entryOrder, waitingExt, m', decodedFrom_bytesOf hread, hm', hdelivered⟩,
    ⟨hfits'.1, hfits'.2⟩, decodedFrom_bytesOf hnext⟩

/-- One retry: the message that is read last, and what is put for it. -/
def oneRetry : Option (MessageExt × Copy × MessageExt × MessageExtBrokerInner) := do
  let first ← decode (bytesOf (messageTo "T".toList))
  let (copy, last) ← round 1 first
  let m ← sentOf 1 last
  return (first, copy, last, m)

/-- **A dead letter is delayed**: the group retries once, and the second copy goes to the schedule
topic again. -/
theorem dead_letter_delayed :
    ¬ ∀ (cfg : MessageStoreConfig) (group : Text) (retryMaxTimes : Int32) (first last : MessageExt)
      (copies : List Copy) (m : MessageExtBrokerInner) (bs : Bytes) (env : Env),
      decode bs = some first → first.reconsumeTimes = 0 →
      Chain cfg group retryMaxTimes first copies last →
      (copies.length : ℤ) = retryMaxTimes.toInt → SentBackAs group retryMaxTimes last m →
      GoodChain cfg group first copies (stored cfg env m) := by
  intro h
  have hrun : oneRetry.map (fun r => decide (r.1.reconsumeTimes = 0 ∧ wellPassed r.2.1) &&
      (stored config zeroEnv r.2.2.2).all fun dead => dead.topic != getDLQTopic "G".toList) =
        some true := by
    decide +kernel
  obtain ⟨⟨first, copy, last, m⟩, hretry, hchecks⟩ := Option.map_eq_some_iff.mp hrun
  simp only [Bool.and_eq_true, decide_eq_true_eq] at hchecks
  obtain ⟨⟨htimes, hpassed⟩, hdead⟩ := hchecks
  simp only [oneRetry, Option.bind_eq_bind, Option.bind_eq_some_iff, Option.pure_def,
    Option.some.injEq, Prod.mk.injEq] at hretry
  obtain ⟨first', hdecode, ⟨copy', last'⟩, hround, m', hsent, rfl, rfl, rfl, rfl⟩ := hretry
  have hgood := h config "G".toList 1 first' last' [copy'] m' _ zeroEnv hdecode htimes
    (Chain.retried Chain.first (retried_of_round hround hpassed)) rfl (sentBackAs_of_sentOf hsent)
  obtain ⟨record, hrecord, htopic, -⟩ := hgood.dead
  rw [hrecord, Option.all_some, htopic] at hdead
  simp at hdead

/-- A message that comes with its own identifier. -/
def ownMessage : MessageExtBrokerInner :=
  { messageTo "T".toList with
    propertiesString := some (PROPERTY_ORIGIN_MESSAGE_ID ++ NAME_VALUE_SEPARATOR ::
      "7F00000100002A9F0000000000000000".toList ++ [PROPERTY_SEPARATOR]) }

/-- A group without retries: the message goes to the dead letters as it is. -/
theorem goodChain_iff_own :
    ∃ first m, decode (bytesOf ownMessage) = some first ∧ sentOf 0 first = some m ∧
      GoodChain config "G".toList first [] (stored config zeroEnv m) := by
  have hrun : (decode (bytesOf ownMessage)).map (fun first => (sentOf 0 first).isSome &&
      decide (first.reconsumeTimes = 0 ∧ first.getProperty PROPERTY_DELAY_TIME_LEVEL = none ∧
        first.getProperty PROPERTY_RETRY_TOPIC = none ∧ first.topic = "T".toList ∧
        first.getProperty PROPERTY_ORIGIN_MESSAGE_ID = some (getMsgId first))) = some true := by
    decide +kernel
  obtain ⟨first, hdecode, hchecks⟩ := Option.map_eq_some_iff.mp hrun
  simp only [Bool.and_eq_true, decide_eq_true_eq] at hchecks
  obtain ⟨hsome, htimes, hdelay, hretry, htopic, hid⟩ := hchecks
  obtain ⟨m, hsent⟩ := Option.isSome_iff_exists.mp hsome
  have hclean : CleanValue "T".toList := ⟨by decide, by decide, by decide⟩
  refine ⟨first, m, hdecode, hsent, (goodChain_iff hdecode htimes Chain.first rfl
    (sentBackAs_of_sentOf hsent)).mpr ⟨rfl, fun _ t ht => ?_, .inr ⟨hretry, htopic ▸ hclean⟩, hid⟩⟩
  rw [hdelay] at ht
  cases ht

end CloudMQ.RetryChain
