import CloudMQ.SendBackPaths
import CloudMQ.QueueSelection

/-!
The attempts of one call of `sendDefaultImpl`.

Every attempt writes to the message it is given: the body is compressed in place and put back, the
topic gets the project group of the client, and the number of retries of a message for a retry
topic moves from the properties into the request. The first two are the same the next time. The
number of retries is gone.
-/

namespace CloudMQ.SendAttempts

open CloudMQ.Utf8 CloudMQ.Strings CloudMQ.Message CloudMQ.Properties CloudMQ.PullFromWhere
open CloudMQ.SendBackPaths
open CloudMQ.TopicRoutes (MessageQueue)
open CloudMQ.QueueSelection (TopicPublishInfo selectOther selectOneMessageQueue)

/-! ### The producer -/

inductive CommunicationMode | SYNC | ASYNC | ONEWAY
deriving DecidableEq

inductive SendStatus | SEND_OK | FLUSH_DISK_TIMEOUT | FLUSH_SLAVE_TIMEOUT | SLAVE_NOT_AVAILABLE
deriving DecidableEq

/-- What a call may throw. -/
inductive Thrown
  | remotingException
  | mqClientException
  | mqBrokerException (responseCode : Int32)
  | interruptedException
  | numberFormatException
  | negativeArraySizeException
  | selection (e : QueueSelection.Thrown)
deriving DecidableEq

def SYSTEM_ERROR : Int32 := 1
def SERVICE_NOT_AVAILABLE : Int32 := 14
def NO_PERMISSION : Int32 := 16
def TOPIC_NOT_EXIST : Int32 := 17
def NO_BUYER_ID : Int32 := 204
def NOT_IN_CURRENT_UNIT : Int32 := 205

/-- The settings of the producer, and the project group of its client. -/
structure DefaultMQProducer extends Producer where
  retryTimesWhenSendFailed : Int32
  retryAnotherBrokerWhenNotStoreOK : Bool
  sendMsgTimeout : Int32
  projectGroupPrefix : Text

/-- What an attempt meets: how many turns others took since the last one, whether the address of
the broker is found, whether a hook forbids to send, the clock before, what the request comes to,
and the time since the call began. -/
structure Attempt where
  turns : Int32
  found : Bool
  forbidden : Bool
  bornTimestamp : Int64
  outcome : Except Thrown SendStatus
  elapsed : Int64

/-- A request, and the broker it is sent to. -/
structure Request where
  brokerName : Text
  requestHeader : SendMessageRequestHeader
  body : Option ByteArr

section Producer

variable (p : DefaultMQProducer) (communicationMode : CommunicationMode) (order : EntryOrder)

/-- `VirtualEnvUtil.buildWithProjectGroup`. -/
def buildWithProjectGroup (origin projectGroup : Text) : Text :=
  if isBlank projectGroup then origin
  else
    let suffix := "%PROJECT_".toList ++ projectGroup ++ "%".toList
    if suffix.isSuffixOf origin then origin else origin ++ suffix

/-- The body of the message is compressed where it is long enough; the answer is whether it was. -/
def tryToCompressMessage (msg : ClientMessage) : ClientMessage × Bool :=
  match msg.body with
  | none => (msg, false)
  | some body =>
    if p.compressMsgBodyOverHowmuch ≤ body.val.length then
      match p.zip body with
      | some data => ({ msg with body := some data }, true)
      | none => (msg, false)
    else (msg, false)

/-- The number of retries goes from the properties into the header. `none` is a
`NumberFormatException`. -/
def setReconsumeTimes (msg : ClientMessage) (requestHeader : SendMessageRequestHeader) :
    Option (ClientMessage × SendMessageRequestHeader) :=
  if RETRY_GROUP_TOPIC_PREFIX.isPrefixOf requestHeader.topic then
    match msg.getProperty PROPERTY_RECONSUME_TIME with
    | none => some (msg, requestHeader)
    | some reconsumeTimes =>
      (parseInt reconsumeTimes).map fun n =>
        (msg.clearProperty PROPERTY_RECONSUME_TIME, { requestHeader with reconsumeTimes := n })
  else some (msg, requestHeader)

/-- `MQClientAPIImpl.sendMessage`: the message, renamed, and the request made of it. -/
def sendMessage (mq : MessageQueue) (msg : ClientMessage)
    (requestHeader : SendMessageRequestHeader) : ClientMessage × Request :=
  let msg := { msg with topic := buildWithProjectGroup msg.topic p.projectGroupPrefix }
  let requestHeader := { requestHeader with
    topic := buildWithProjectGroup requestHeader.topic p.projectGroupPrefix }
  (msg, ⟨mq.brokerName, requestHeader, msg.body⟩)

/-- `sendKernelImpl`: the message after it, the request if there was one, and the result. Whatever
happens to the request, the message gets its body back. -/
def sendKernelImpl (mq : MessageQueue) (a : Attempt) (msg : ClientMessage) :
    ClientMessage × Option Request × Except Thrown (Option SendStatus) :=
  if a.found then
    let prevBody := msg.body
    let (msg, compressed) := tryToCompressMessage p msg
    if a.forbidden then ({ msg with body := prevBody }, none, .error .mqClientException)
    else
      let requestHeader : SendMessageRequestHeader := {
        topic := msg.topic
        queueId := mq.queueId
        sysFlag := sysFlagOf compressed (isPrepared msg.properties)
        bornTimestamp := a.bornTimestamp
        flag := msg.flag
        properties := messageProperties2String order msg.properties
        reconsumeTimes := 0 }
      match setReconsumeTimes msg requestHeader with
      | none => ({ msg with body := prevBody }, none, .error .numberFormatException)
      | some (msg, requestHeader) =>
        let (msg, request) := sendMessage p mq msg requestHeader
        ({ msg with body := prevBody }, some request,
          a.outcome.map fun status => if communicationMode = .SYNC then some status else none)
  else (msg, none, .error .mqClientException)

/-- What the loop makes of a result: the last result it has, and what the call comes to, if this
was the last attempt. -/
def afterAttempt (sendResult : Option SendStatus) :
    Except Thrown (Option SendStatus) →
      Option SendStatus × Option (Except Thrown (Option SendStatus))
  | .ok result =>
    match communicationMode with
    | .ASYNC => (result, some (.ok none))
    | .ONEWAY => (result, some (.ok none))
    | .SYNC =>
      if result ≠ some .SEND_OK ∧ p.retryAnotherBrokerWhenNotStoreOK then (result, none)
      else (result, some (.ok result))
  | .error .remotingException => (sendResult, none)
  | .error .mqClientException => (sendResult, none)
  | .error (.mqBrokerException responseCode) =>
    if responseCode ∈ [TOPIC_NOT_EXIST, SERVICE_NOT_AVAILABLE, SYSTEM_ERROR, NO_PERMISSION,
        NO_BUYER_ID, NOT_IN_CURRENT_UNIT] then (sendResult, none)
    else match sendResult with
      | some result => (sendResult, some (.ok (some result)))
      | none => (sendResult, some (.error (.mqBrokerException responseCode)))
  | .error e => (sendResult, some (.error e))

/-- The variables of the loop. -/
structure Sending where
  msg : ClientMessage
  info : TopicPublishInfo
  mq : Option MessageQueue
  sendResult : Option SendStatus
  elapsed : Int64

/-- Other calls took their turns. -/
def passBy (turns : Int32) (info : TopicPublishInfo) : TopicPublishInfo :=
  { info with sendWhichQueue := info.sendWhichQueue + turns }

/-- An attempt that was made: the queue, the message before and after it, the request if there was
one, and the result. -/
structure Sent where
  mq : MessageQueue
  before : ClientMessage
  after : ClientMessage
  request : Option Request
  result : Except Thrown (Option SendStatus)

/-- A call: its attempts, the message after it, and what it comes to. -/
structure Call where
  attempts : List Sent
  msg : ClientMessage
  result : Except Thrown (Option SendStatus)

/-- Behind the loop: the last result, or an exception. -/
def giveUp (s : Sending) : Call where
  attempts := []
  msg := s.msg
  result := match s.sendResult with
    | some result => .ok (some result)
    | none => .error .mqClientException

def maxTimeout : Int64 := (p.sendMsgTimeout + 1000).toInt64

/-- The loop of `sendDefaultImpl`, with so many attempts left after `times`. -/
def attemptsFrom (env : ℕ → Attempt) : ℕ → ℕ → Sending → Call
  | 0, _, s => giveUp s
  | left + 1, times, s =>
    if s.elapsed < maxTimeout p then
      let a := env times
      let lastBrokerName := s.mq.map MessageQueue.brokerName
      let (tmpmq, info) := selectOneMessageQueue lastBrokerName (passBy a.turns s.info)
      match tmpmq with
      | .error e => ⟨[], s.msg, .error (.selection e)⟩
      | .ok none => giveUp s
      | .ok (some mq) =>
        let (msg, request, result) := sendKernelImpl p communicationMode order mq a s.msg
        let sent : Sent := ⟨mq, s.msg, msg, request, result⟩
        let (sendResult, exit) := afterAttempt p communicationMode s.sendResult result
        match exit with
        | some r => ⟨[sent], msg, r⟩
        | none =>
          let rest := attemptsFrom env left (times + 1) ⟨msg, info, some mq, sendResult, a.elapsed⟩
          { rest with attempts := sent :: rest.attempts }
    else giveUp s

/-- `sendDefaultImpl` of a producer that is running, with the publish info that is found for the
topic. -/
def sendDefaultImpl (env : ℕ → Attempt) (topicPublishInfo : Option TopicPublishInfo)
    (msg : ClientMessage) : Call :=
  if checkMessage p.toProducer msg then
    match topicPublishInfo with
    | none => ⟨[], msg, .error .mqClientException⟩
    | some info =>
      if info.messageQueueList = [] then ⟨[], msg, .error .mqClientException⟩
      else
        let timesTotal := 1 + p.retryTimesWhenSendFailed
        if timesTotal < 0 then ⟨[], msg, .error .negativeArraySizeException⟩
        else attemptsFrom p communicationMode order env timesTotal.toInt.toNat 0
          ⟨msg, info, none, none, 0⟩
  else ⟨[], msg, .error .mqClientException⟩

end Producer

/-! ### The same message every time -/

/-- The two requests carry the same message. -/
structure SameMessage (a b : Request) : Prop where
  topic : b.requestHeader.topic = a.requestHeader.topic
  body : b.body = a.body
  sysFlag : b.requestHeader.sysFlag = a.requestHeader.sysFlag
  flag : b.requestHeader.flag = a.requestHeader.flag
  properties : b.requestHeader.properties = a.requestHeader.properties
  reconsumeTimes : b.requestHeader.reconsumeTimes = a.requestHeader.reconsumeTimes

/-- **What a call is to do**: every request carries the same message, there are not too many of
them and none after one that was stored, an attempt goes to another broker than the one before, and
the message has its body afterwards. -/
structure SendsOneMessage (p : DefaultMQProducer) (msg : ClientMessage) (call : Call) : Prop where
  same : call.attempts.Pairwise fun e e' =>
    ∀ r r', e.request = some r → e'.request = some r' → SameMessage r r'
  count : ((call.attempts.filterMap Sent.request).length : ℤ) ≤
    max 0 (1 + p.retryTimesWhenSendFailed.toInt)
  stops : call.attempts.Pairwise fun e _ => e.result ≠ .ok (some .SEND_OK)
  apart : call.attempts.IsChain fun e e' => e'.mq.brokerName ≠ e.mq.brokerName
  body : call.msg.body = msg.body

/-- The number of retries that an attempt takes out of the message. -/
def taken (msg : ClientMessage) : Option Int32 :=
  if RETRY_GROUP_TOPIC_PREFIX.isPrefixOf msg.topic then
    (msg.getProperty PROPERTY_RECONSUME_TIME).bind parseInt
  else none

/-- No request follows one that took a number of retries out of the message, and none that takes a
number other than zero follows another. -/
def TakesNothing (attempts : List Sent) : Prop :=
  attempts.Pairwise fun e e' => e.request.isSome → e'.request.isSome →
    taken e.before = none ∧ (taken e'.before).getD 0 = 0

section Attempts

variable {p : DefaultMQProducer} {communicationMode : CommunicationMode} {order : EntryOrder}
  {msg : ClientMessage} {mq : MessageQueue} {a : Attempt} {e : Sent} {es : List Sent}
  {r : Request}

/-! ### One attempt -/

lemma buildWithProjectGroup_idem (origin projectGroup : Text) :
    buildWithProjectGroup (buildWithProjectGroup origin projectGroup) projectGroup =
      buildWithProjectGroup origin projectGroup := by
  unfold buildWithProjectGroup
  by_cases hblank : isBlank projectGroup = true
  · rw [if_pos hblank, if_pos hblank]
  · simp only [if_neg hblank]
    split_ifs with hsuffix happended
    · rfl
    · rfl
    · exact absurd (List.isSuffixOf_iff_suffix.mpr (List.suffix_append _ _)) happended

/-- What an attempt that gets as far as a request leaves of the message. -/
def afterRequest (p : DefaultMQProducer) (msg : ClientMessage) : ClientMessage :=
  { msg with
    topic := buildWithProjectGroup msg.topic p.projectGroupPrefix
    properties :=
      if (taken msg).isSome then msg.properties.erase PROPERTY_RECONSUME_TIME else msg.properties }

/-- The request carries the message, but for the number of retries. -/
structure Carries (p : DefaultMQProducer) (order : EntryOrder) (msg : ClientMessage)
    (r : Request) : Prop where
  topic : r.requestHeader.topic = buildWithProjectGroup msg.topic p.projectGroupPrefix
  body : r.body = (tryToCompressMessage p msg).1.body
  sysFlag : r.requestHeader.sysFlag =
    sysFlagOf (tryToCompressMessage p msg).2 (isPrepared msg.properties)
  flag : r.requestHeader.flag = msg.flag
  properties : r.requestHeader.properties = messageProperties2String order msg.properties

/-- The request is the one the message makes. -/
structure RequestOf (p : DefaultMQProducer) (order : EntryOrder) (msg : ClientMessage)
    (r : Request) : Prop extends Carries p order msg r where
  reconsumeTimes : r.requestHeader.reconsumeTimes = (taken msg).getD 0

/-- An attempt without a request leaves the message alone. -/
structure Made (p : DefaultMQProducer) (order : EntryOrder) (e : Sent) : Prop where
  unsent : e.request = none → e.after = e.before
  sent : ∀ r, e.request = some r → RequestOf p order e.before r ∧ e.after = afterRequest p e.before

/-- Compressing changes nothing but the body. -/
lemma tryToCompressMessage_eq (p : DefaultMQProducer) (msg : ClientMessage) :
    (tryToCompressMessage p msg).1 = { msg with body := (tryToCompressMessage p msg).1.body } := by
  unfold tryToCompressMessage
  split
  · rfl
  · split_ifs
    · split
      · rfl
      · rfl
    · rfl

/-- What compressing comes to depends on nothing but the body. -/
lemma tryToCompressMessage_congr (p : DefaultMQProducer) {msg msg' : ClientMessage}
    (h : msg.body = msg'.body) :
    (tryToCompressMessage p msg).1.body = (tryToCompressMessage p msg').1.body ∧
      (tryToCompressMessage p msg).2 = (tryToCompressMessage p msg').2 := by
  unfold tryToCompressMessage
  rw [h]
  cases hbody : msg'.body with
  | none => exact ⟨h, rfl⟩
  | some body =>
    dsimp only
    split_ifs
    · cases p.zip body with
      | none => exact ⟨h, rfl⟩
      | some data => exact ⟨rfl, rfl⟩
    · exact ⟨h, rfl⟩

/-- What `setReconsumeTimes` makes of a message and a header of its topic. -/
lemma setReconsumeTimes_spec {requestHeader requestHeader' : SendMessageRequestHeader}
    {msg' : ClientMessage} (htopic : requestHeader.topic = msg.topic)
    (hzero : requestHeader.reconsumeTimes = 0)
    (h : setReconsumeTimes msg requestHeader = some (msg', requestHeader')) :
    requestHeader' = { requestHeader with reconsumeTimes := (taken msg).getD 0 } ∧
      msg' = { msg with properties :=
        if (taken msg).isSome then msg.properties.erase PROPERTY_RECONSUME_TIME
        else msg.properties } := by
  unfold setReconsumeTimes at h
  unfold taken
  by_cases hretry : RETRY_GROUP_TOPIC_PREFIX.isPrefixOf msg.topic = true
  · rw [if_pos (htopic ▸ hretry)] at h
    rw [if_pos hretry]
    cases hget : msg.getProperty PROPERTY_RECONSUME_TIME with
    | none =>
      rw [hget, Option.some.injEq, Prod.mk.injEq] at h
      rw [← h.1, ← h.2]
      exact ⟨by rw [Option.bind_none, Option.getD_none, ← hzero], rfl⟩
    | some t =>
      rw [hget] at h
      obtain ⟨n, hn, h⟩ := Option.map_eq_some_iff.mp h
      rw [Prod.mk.injEq] at h
      rw [← h.1, ← h.2, Option.bind_some, hn]
      exact ⟨rfl, rfl⟩
  · rw [if_neg (htopic ▸ hretry), Option.some.injEq, Prod.mk.injEq] at h
    rw [if_neg hretry, ← h.1, ← h.2]
    exact ⟨by rw [Option.getD_none, ← hzero], rfl⟩

/-- **An attempt**, whatever it meets. -/
lemma made_sendKernelImpl (p : DefaultMQProducer) (communicationMode : CommunicationMode)
    (order : EntryOrder) (mq : MessageQueue) (a : Attempt) (msg : ClientMessage) :
    Made p order ⟨mq, msg, (sendKernelImpl p communicationMode order mq a msg).1,
      (sendKernelImpl p communicationMode order mq a msg).2.1,
      (sendKernelImpl p communicationMode order mq a msg).2.2⟩ := by
  have hcompressed := tryToCompressMessage_eq p msg
  unfold sendKernelImpl
  by_cases hfound : a.found = true
  · rw [if_pos hfound]
    generalize hzip : tryToCompressMessage p msg = zipped at hcompressed
    obtain ⟨small, compressed⟩ := zipped
    dsimp only at hcompressed ⊢
    by_cases hforbidden : a.forbidden = true
    · rw [if_pos hforbidden]
      exact ⟨fun _ => by rw [hcompressed], fun r hr => nomatch hr⟩
    · rw [if_neg hforbidden]
      split
      · exact ⟨fun _ => by rw [hcompressed], fun r hr => nomatch hr⟩
      · next msg' requestHeader' hset =>
        have htaken : taken small = taken msg := by rw [hcompressed]; rfl
        obtain ⟨hheader, hmsg⟩ := setReconsumeTimes_spec rfl rfl hset
        rw [htaken] at hheader hmsg
        refine ⟨fun h => absurd h (by simp), fun r hr => ?_⟩
        rw [Option.some.injEq] at hr
        subst hr
        have hbody : small.body = (tryToCompressMessage p msg).1.body := by rw [hzip]
        have hflag : compressed = (tryToCompressMessage p msg).2 := by rw [hzip]
        rw [sendMessage, hheader, hmsg]
        refine ⟨⟨⟨?_, hbody, ?_, ?_, ?_⟩, rfl⟩, ?_⟩
        · rw [hcompressed]
        · rw [hcompressed, hflag]
        · rw [hcompressed]
        · rw [hcompressed]
        · rw [hcompressed]
          rfl
  · rw [if_neg hfound]
    exact ⟨fun _ => rfl, fun r hr => nomatch hr⟩

/-! ### The length of the properties -/

/-- The number of characters the properties take. -/
def size (entries : List (Text × Text)) : ℕ :=
  (entries.map fun entry => entry.1.length + entry.2.length + 2).sum

lemma length_messageProperties2String (order : EntryOrder) (m : Props) :
    (messageProperties2String order m).length = size m.entries := by
  have hperm := (order.perm m).map fun entry => entry.1.length + entry.2.length + 2
  rw [messageProperties2String, List.length_flatMap, size, ← hperm.sum_eq]
  congr 1
  refine List.map_congr_left fun entry _ => ?_
  simp only [List.length_append, List.length_cons, List.length_nil]
  omega

lemma size_eraseEntries_le (name : Text) (l : List (Text × Text)) :
    size (Props.eraseEntries name l) ≤ size l :=
  (List.filter_sublist.map _).sum_le_sum fun _ _ => Nat.zero_le _

lemma size_eraseEntries_lt {name : Text} {l : List (Text × Text)} {value : Text}
    (h : (name, value) ∈ l) : size (Props.eraseEntries name l) < size l := by
  obtain ⟨before, after, rfl⟩ := List.append_of_mem h
  have h1 := size_eraseEntries_le name before
  have h2 := size_eraseEntries_le name after
  simp only [size, Props.eraseEntries, List.filter_append, List.map_append, List.sum_append,
    List.filter_cons, List.map_cons, List.sum_cons, bne_self_eq_false, Bool.false_eq_true,
    if_false] at h1 h2 ⊢
  omega

/-! ### The attempts of a call -/

/-- Every attempt is given what the one before it left. -/
def Linked (p : DefaultMQProducer) (order : EntryOrder) : ClientMessage → List Sent → Prop
  | _, [] => True
  | msg, e :: es => e.before = msg ∧ Made p order e ∧ Linked p order e.after es

lemma Linked.made (h : Linked p order msg es) : ∀ e ∈ es, Made p order e := by
  induction es generalizing msg with
  | nil => exact fun e he => absurd he List.not_mem_nil
  | cons e es ih => exact List.forall_mem_cons.mpr ⟨h.2.1, ih h.2.2⟩

lemma Made.size_le (h : Made p order e) :
    size e.after.properties.entries ≤ size e.before.properties.entries := by
  cases hr : e.request with
  | none => rw [h.unsent hr]
  | some r =>
    rw [(h.sent r hr).2, afterRequest]
    dsimp only
    split_ifs
    · exact size_eraseEntries_le _ _
    · exact le_rfl

/-- The properties do not grow. -/
lemma Linked.size_le (h : Linked p order msg es) :
    ∀ e ∈ es, size e.before.properties.entries ≤ size msg.properties.entries := by
  induction es generalizing msg with
  | nil => exact fun e he => absurd he List.not_mem_nil
  | cons e es ih =>
    obtain ⟨rfl, hmade, hrest⟩ := h
    exact List.forall_mem_cons.mpr
      ⟨le_rfl, fun e' he' => (ih hrest e' he').trans hmade.size_le⟩

/-- A number of retries that was taken is missing from the properties. -/
lemma Made.size_lt (h : Made p order e) (hr : e.request = some r) {n : Int32}
    (htaken : taken e.before = some n) :
    size e.after.properties.entries < size e.before.properties.entries := by
  rw [(h.sent r hr).2, afterRequest]
  dsimp only
  rw [htaken, Option.isSome_some, if_pos rfl]
  unfold taken at htaken
  split_ifs at htaken
  obtain ⟨t, hget, -⟩ := Option.bind_eq_some_iff.mp htaken
  exact size_eraseEntries_lt (mem_entries_iff.mpr hget)

/-- Requests that carry the same message leave every number of retries where it is. -/
lemma takesNothing_of_same (h : Linked p order msg es) (hsame : es.Pairwise fun e e' =>
    ∀ r r', e.request = some r → e'.request = some r' → SameMessage r r') : TakesNothing es := by
  induction es generalizing msg with
  | nil => exact List.Pairwise.nil
  | cons e es ih =>
    obtain ⟨-, hmade, hrest⟩ := h
    obtain ⟨hfirst, hsame⟩ := List.pairwise_cons.mp hsame
    refine List.pairwise_cons.mpr ⟨fun e' he' hr hr' => ?_, ih hrest hsame⟩
    obtain ⟨r, hr⟩ := Option.isSome_iff_exists.mp hr
    obtain ⟨r', hr'⟩ := Option.isSome_iff_exists.mp hr'
    have hboth := hfirst e' he' r r' hr hr'
    have hof := (hmade.sent r hr).1
    have hof' := ((hrest.made e' he').sent r' hr').1
    have hnone : taken e.before = none := by
      rw [Option.eq_none_iff_forall_ne_some]
      intro n hn
      have hlength := congrArg List.length hboth.properties
      rw [hof.properties, hof'.properties, length_messageProperties2String,
        length_messageProperties2String] at hlength
      have h1 := hmade.size_lt hr hn
      have h2 := hrest.size_le e' he'
      omega
    refine ⟨hnone, ?_⟩
    rw [← hof'.reconsumeTimes, hboth.reconsumeTimes, hof.reconsumeTimes, hnone, Option.getD_none]

/-- What was left by an attempt that took nothing is carried as the message is. -/
lemma Carries.of_afterRequest (htaken : taken msg = none)
    (h : Carries p order (afterRequest p msg) r) : Carries p order msg r := by
  have hprops : (afterRequest p msg).properties = msg.properties := by
    rw [afterRequest, htaken]
    rfl
  obtain ⟨hbody, hcompressed⟩ := tryToCompressMessage_congr p
    (show (afterRequest p msg).body = msg.body from rfl)
  refine ⟨?_, ?_, ?_, h.flag, ?_⟩
  · rw [h.topic]
    exact buildWithProjectGroup_idem _ _
  · rw [h.body, hbody]
  · rw [h.sysFlag, hcompressed, hprops]
  · rw [h.properties, hprops]

lemma Linked.carries (h : Linked p order msg es) (htakes : TakesNothing es) :
    ∀ e ∈ es, ∀ r, e.request = some r → Carries p order msg r := by
  induction es generalizing msg with
  | nil => exact fun e he => absurd he List.not_mem_nil
  | cons e es ih =>
    obtain ⟨rfl, hmade, hrest⟩ := h
    obtain ⟨hfirst, htakes⟩ := List.pairwise_cons.mp htakes
    refine List.forall_mem_cons.mpr
      ⟨fun r hr => (hmade.sent r hr).1.toCarries, fun e' he' r' hr' => ?_⟩
    have hcarries := ih hrest htakes e' he' r' hr'
    cases hr : e.request with
    | none => exact hmade.unsent hr ▸ hcarries
    | some r =>
      have hnone := (hfirst e' he' (by rw [hr, Option.isSome_some])
        (by rw [hr', Option.isSome_some])).1
      rw [(hmade.sent r hr).2] at hcarries
      exact hcarries.of_afterRequest hnone

/-- Where nothing is taken, the requests carry the same message. -/
lemma same_of_takesNothing (h : Linked p order msg es) (htakes : TakesNothing es) :
    es.Pairwise fun e e' =>
      ∀ r r', e.request = some r → e'.request = some r' → SameMessage r r' := by
  refine List.Pairwise.imp_of_mem (fun {e e'} he he' hpair r r' hr hr' => ?_) htakes
  obtain ⟨hnone, hzero⟩ := hpair (by rw [hr, Option.isSome_some]) (by rw [hr', Option.isSome_some])
  have hof := ((h.made e he).sent r hr).1
  have hof' := ((h.made e' he').sent r' hr').1
  have hc := h.carries htakes e he r hr
  have hc' := h.carries htakes e' he' r' hr'
  exact ⟨by rw [hc.topic, hc'.topic], by rw [hc.body, hc'.body], by rw [hc.sysFlag, hc'.sysFlag],
    by rw [hc.flag, hc'.flag], by rw [hc.properties, hc'.properties],
    by rw [hof.reconsumeTimes, hof'.reconsumeTimes, hnone, hzero, Option.getD_none]⟩

/-! ### The loop -/

/-- A queue of another broker is of another broker. -/
lemma selectOther_ne {qs : List MessageQueue} {name : Text} {n : ℕ} {index : Int32}
    (h : selectOther qs name n index = .ok (some mq)) : mq.brokerName ≠ name := by
  induction n generalizing index with
  | zero =>
    rw [selectOther] at h
    cases h
  | succ n ih =>
    rw [selectOther] at h
    split at h
    · cases h
    · next mq' hat =>
      split_ifs at h with hname
      · rw [Except.ok.injEq, Option.some.injEq] at h
        exact h ▸ hname
      · exact ih h

/-- A message that was stored is not sent again. -/
lemma result_of_continue {sendResult sendResult' : Option SendStatus}
    {result : Except Thrown (Option SendStatus)}
    (h : afterAttempt p communicationMode sendResult result = (sendResult', none)) :
    result ≠ .ok (some .SEND_OK) := by
  rintro rfl
  cases communicationMode with
  | SYNC => simp [afterAttempt] at h
  | ASYNC => simp [afterAttempt] at h
  | ONEWAY => simp [afterAttempt] at h

/-- What the loop does with a message behind the last queue, with so many attempts left. -/
structure LoopDoes (p : DefaultMQProducer) (order : EntryOrder) (left : ℕ) (msg : ClientMessage)
    (last : Option MessageQueue) (call : Call) : Prop where
  linked : Linked p order msg call.attempts
  length : call.attempts.length ≤ left
  stops : call.attempts.Pairwise fun e _ => e.result ≠ .ok (some .SEND_OK)
  apart : call.attempts.IsChain fun e e' => e'.mq.brokerName ≠ e.mq.brokerName
  first : ∀ e ∈ call.attempts.head?, ∀ mq ∈ last, e.mq.brokerName ≠ mq.brokerName
  body : call.msg.body = msg.body

lemma loopDoes_nil {left : ℕ} {last : Option MessageQueue}
    {result : Except Thrown (Option SendStatus)} :
    LoopDoes p order left msg last ⟨[], msg, result⟩ :=
  ⟨trivial, Nat.zero_le _, .nil, .nil, fun e he => absurd he (by simp), rfl⟩

lemma Made.body_eq (h : Made p order e) : e.after.body = e.before.body := by
  cases hr : e.request with
  | none => rw [h.unsent hr]
  | some r =>
    rw [(h.sent r hr).2]
    rfl

/-- The queue that is selected is of another broker than the last one. -/
lemma select_ne {last : Option MessageQueue} {info info' : TopicPublishInfo}
    (h : selectOneMessageQueue (last.map MessageQueue.brokerName) info = (.ok (some mq), info')) :
    ∀ mq' ∈ last, mq.brokerName ≠ mq'.brokerName := by
  rintro mq' rfl
  exact selectOther_ne (congrArg Prod.fst h)

/-- **The loop.** -/
lemma loopDoes_attemptsFrom (env : ℕ → Attempt) (left times : ℕ) (s : Sending) :
    LoopDoes p order left s.msg s.mq
      (attemptsFrom p communicationMode order env left times s) := by
  induction left generalizing times s with
  | zero => exact loopDoes_nil
  | succ left ih =>
    rw [attemptsFrom]
    split_ifs
    · dsimp only
      generalize hselect : selectOneMessageQueue _ _ = selected
      obtain ⟨tmpmq, info⟩ := selected
      dsimp only
      match tmpmq with
      | .error e => exact loopDoes_nil
      | .ok none => exact loopDoes_nil
      | .ok (some mq) =>
        have hother := select_ne hselect
        have hmade := made_sendKernelImpl p communicationMode order mq (env times) s.msg
        dsimp only
        generalize sendKernelImpl p communicationMode order mq (env times) s.msg = kernel at hmade
        obtain ⟨msg, request, result⟩ := kernel
        have hbody : msg.body = s.msg.body := hmade.body_eq
        dsimp only at hmade ⊢
        generalize hafter : afterAttempt p communicationMode s.sendResult result = after
        obtain ⟨sendResult, exit⟩ := after
        have hfirst : ∀ e ∈ (some ⟨mq, s.msg, msg, request, result⟩ : Option Sent),
            ∀ mq' ∈ s.mq, e.mq.brokerName ≠ mq'.brokerName := by
          rintro e ⟨⟩
          exact hother
        cases exit with
        | some r =>
          exact ⟨⟨rfl, hmade, trivial⟩, by simp, List.pairwise_singleton _ _, .singleton _, hfirst,
            hbody⟩
        | none =>
          dsimp only
          have hrest := ih (times + 1) ⟨msg, info, some mq, sendResult, (env times).elapsed⟩
          refine ⟨⟨rfl, hmade, hrest.linked⟩, ?_, ?_, ?_, hfirst, hrest.body.trans hbody⟩
          · have := hrest.length
            rw [List.length_cons]
            omega
          · exact List.pairwise_cons.mpr ⟨fun _ _ => result_of_continue hafter, hrest.stops⟩
          · exact List.isChain_cons.mpr ⟨fun e he => hrest.first e he mq rfl, hrest.apart⟩
    · exact loopDoes_nil

lemma loopDoes_sendDefaultImpl (env : ℕ → Attempt) (topicPublishInfo : Option TopicPublishInfo)
    (msg : ClientMessage) :
    LoopDoes p order (1 + p.retryTimesWhenSendFailed).toInt.toNat msg none
      (sendDefaultImpl p communicationMode order env topicPublishInfo msg) := by
  unfold sendDefaultImpl
  split_ifs
  · cases topicPublishInfo with
    | none => exact loopDoes_nil
    | some info =>
      dsimp only
      split_ifs
      · exact loopDoes_nil
      · exact loopDoes_nil
      · exact loopDoes_attemptsFrom env _ 0 ⟨msg, info, none, none, 0⟩
  · exact loopDoes_nil

/-- The sum may run over, and is negative then. -/
lemma timesTotal_le (retryTimes : Int32) :
    ((1 + retryTimes).toInt.toNat : ℤ) ≤ max 0 (1 + retryTimes.toInt) := by
  have h1 : (1 : Int32).toInt = 1 := rfl
  have h2 := retryTimes.toInt_lt
  have h3 := retryTimes.le_toInt
  rw [Int32.toInt_add, h1, Int.bmod_def]
  split <;> omega

lemma sendsOneMessage_of_takesNothing {left : ℕ} {last : Option MessageQueue} {call : Call}
    (hdoes : LoopDoes p order left msg last call)
    (hleft : (left : ℤ) ≤ max 0 (1 + p.retryTimesWhenSendFailed.toInt))
    (h : TakesNothing call.attempts) : SendsOneMessage p msg call := by
  refine ⟨same_of_takesNothing hdoes.linked h, ?_, hdoes.stops, hdoes.apart, hdoes.body⟩
  have hrequests := List.length_filterMap_le Sent.request call.attempts
  have hlength := hdoes.length
  omega

/-- **When a call sends one message.** -/
theorem sendsOneMessage_iff (p : DefaultMQProducer) (communicationMode : CommunicationMode)
    (order : EntryOrder) (env : ℕ → Attempt) (topicPublishInfo : Option TopicPublishInfo)
    (msg : ClientMessage) :
    SendsOneMessage p msg (sendDefaultImpl p communicationMode order env topicPublishInfo msg) ↔
      TakesNothing
        (sendDefaultImpl p communicationMode order env topicPublishInfo msg).attempts := by
  have hdoes := @loopDoes_sendDefaultImpl p communicationMode order env topicPublishInfo msg
  exact ⟨fun h => takesNothing_of_same hdoes.linked h.same,
    sendsOneMessage_of_takesNothing hdoes (timesTotal_le _)⟩

/-! ### Messages of which nothing is taken -/

/-- There is no number of retries to take, under the topic itself or with the project group. -/
def Untaken (p : DefaultMQProducer) (msg : ClientMessage) : Prop :=
  taken msg = none ∧
    taken { msg with topic := buildWithProjectGroup msg.topic p.projectGroupPrefix } = none

lemma Made.untaken (h : Made p order e) (htaken : Untaken p e.before) : Untaken p e.after := by
  cases hr : e.request with
  | none => exact h.unsent hr ▸ htaken
  | some r =>
    obtain ⟨hnone, hgroup⟩ := htaken
    rw [(h.sent r hr).2, afterRequest, hnone, Option.isSome_none, if_neg Bool.false_ne_true]
    refine ⟨hgroup, ?_⟩
    dsimp only
    rw [buildWithProjectGroup_idem]
    exact hgroup

lemma Linked.untaken (h : Linked p order msg es) (htaken : Untaken p msg) :
    ∀ e ∈ es, Untaken p e.before := by
  induction es generalizing msg with
  | nil => exact fun e he => absurd he List.not_mem_nil
  | cons e es ih =>
    obtain ⟨rfl, hmade, hrest⟩ := h
    exact List.forall_mem_cons.mpr ⟨htaken, ih hrest (hmade.untaken htaken)⟩

/-- **A message without a number of retries**, or for another topic than a retry topic, is sent as
it is every time. -/
theorem sendsOneMessage_of_untaken (htaken : Untaken p msg) (env : ℕ → Attempt)
    (topicPublishInfo : Option TopicPublishInfo) :
    SendsOneMessage p msg (sendDefaultImpl p communicationMode order env topicPublishInfo msg) := by
  have hdoes := @loopDoes_sendDefaultImpl p communicationMode order env topicPublishInfo msg
  have hall := hdoes.linked.untaken htaken
  refine sendsOneMessage_of_takesNothing hdoes (timesTotal_le _) ?_
  refine List.pairwise_of_forall_mem_list fun e he e' he' _ _ => ?_
  rw [(hall e' he').1]
  exact ⟨(hall e he).1, rfl⟩

/-! ### The attempts of the way back -/

/-- Without a project group and a hook, an attempt is the one of a message that is sent back. -/
lemma sendKernelImpl_eq (hblank : isBlank p.projectGroupPrefix = true)
    (hforbidden : a.forbidden = false) :
    SendBackPaths.sendKernelImpl p.toProducer ⟨a.found, mq.queueId, a.bornTimestamp, order⟩ msg =
      ((sendKernelImpl p communicationMode order mq a msg).1,
        (sendKernelImpl p communicationMode order mq a msg).2.1.map fun r =>
          (r.requestHeader, r.body)) := by
  have hgroup (origin : Text) : buildWithProjectGroup origin p.projectGroupPrefix = origin :=
    if_pos hblank
  have hcompressed := tryToCompressMessage_eq p msg
  have hzip : SendBackPaths.tryToCompressMessage p.toProducer msg =
      ((tryToCompressMessage p msg).1.body, (tryToCompressMessage p msg).2) := by
    unfold SendBackPaths.tryToCompressMessage tryToCompressMessage
    cases hbody : msg.body with
    | none => rw [hbody]
    | some body =>
      dsimp only
      split_ifs
      · cases p.zip body with
        | none => rw [hbody]
        | some data => rfl
      · rw [hbody]
  unfold sendKernelImpl SendBackPaths.sendKernelImpl
  rw [hzip]
  by_cases hfound : a.found = true
  · rw [if_pos hfound, if_pos hfound]
    generalize tryToCompressMessage p msg = zipped at hcompressed
    obtain ⟨small, compressed⟩ := zipped
    dsimp only at hcompressed ⊢
    rw [hforbidden, if_neg Bool.false_ne_true, hcompressed]
    unfold setReconsumeTimes sendMessage ClientMessage.getProperty ClientMessage.clearProperty
    dsimp only
    by_cases hretry : RETRY_GROUP_TOPIC_PREFIX.isPrefixOf msg.topic = true
    · rw [if_pos hretry, if_pos hretry]
      cases msg.properties.get PROPERTY_RECONSUME_TIME with
      | none => simp only [Option.map_some, hgroup]
      | some t =>
        dsimp only
        cases parseInt t with
        | none => rfl
        | some n => simp only [Option.map_some, hgroup]
    · rw [if_neg hretry, if_neg hretry]
      simp only [Option.map_some, hgroup]
  · rw [if_neg hfound, if_neg hfound]
    rfl

end Attempts

/-! ### A message that is sent back -/

def producer : DefaultMQProducer where
  maxMessageSize := 131072
  compressMsgBodyOverHowmuch := 4096
  zip := fun _ => none
  retryTimesWhenSendFailed := 2
  retryAnotherBrokerWhenNotStoreOK := false
  sendMsgTimeout := 3000
  projectGroupPrefix := []

lemma short_body : ([104, 105] : Buffer.Bytes).length < 2 ^ 31 := by decide

/-- A message on its first way back to the group `G`. -/
def retryMessage : ClientMessage where
  topic := "%RETRY%G".toList
  flag := 0
  properties := Props.empty.put PROPERTY_RECONSUME_TIME "1".toList
  body := some ⟨[104, 105], short_body⟩

def queues : TopicPublishInfo where
  messageQueueList := [⟨"%RETRY%G".toList, "a".toList, 0⟩, ⟨"%RETRY%G".toList, "b".toList, 0⟩]
  size_lt := by decide

/-- The first broker cannot be reached, the second one takes the message. -/
def brokerDown (times : ℕ) : Attempt where
  turns := 0
  found := true
  forbidden := false
  bornTimestamp := 1700000000000
  outcome := if times = 0 then .error .remotingException else .ok .SEND_OK
  elapsed := 10

/-- The second request says that there was no retry before. -/
theorem not_sendsOneMessage_retried : ¬ SendsOneMessage producer retryMessage
    (sendDefaultImpl producer .SYNC ⟨Props.entries, Props.perm_entries⟩ brokerDown (some queues)
      retryMessage) := by
  intro h
  have htimes : (sendDefaultImpl producer .SYNC ⟨Props.entries, Props.perm_entries⟩ brokerDown
      (some queues) retryMessage).attempts.map (fun e => e.request.map fun r =>
        r.requestHeader.reconsumeTimes) = [some 1, some 0] := rfl
  have hsame : [some (1 : Int32), some 0].Pairwise fun a b =>
      ∀ n n', a = some n → b = some n' → n' = n := by
    rw [← htimes]
    refine h.same.map _ fun e e' hee n n' hn hn' => ?_
    obtain ⟨r, hr, rfl⟩ := Option.map_eq_some_iff.mp hn
    obtain ⟨r', hr', rfl⟩ := Option.map_eq_some_iff.mp hn'
    exact (hee r r' hr hr').reconsumeTimes
  exact absurd ((List.pairwise_cons.mp hsame).1 _ List.mem_cons_self 1 0 rfl rfl) (by decide)

end CloudMQ.SendAttempts
