import CloudMQ.MessageDecoder
import CloudMQ.TransactionState

/-!
The end of a transaction: `EndTransactionProcessor`, and the timer that asks for it.

A producer commits a prepared message or rolls it back, of its own accord or because it is asked
to. The message is read from the log at the offset the request names; when the request agrees with
it, a copy with the new transaction type is put into the store. What the row of the message says is
not looked at.
-/

namespace CloudMQ.EndTransaction

open CloudMQ.Buffer CloudMQ.Utf8 CloudMQ.Strings CloudMQ.Message CloudMQ.CommitLog CloudMQ.Record
open CloudMQ.Segment CloudMQ.Units CloudMQ.TransactionState CloudMQ.MessageDecoder

structure EndTransactionRequestHeader where
  producerGroup : Text
  tranStateTableOffset : Int64
  commitLogOffset : Int64
  commitOrRollback : Int32
  fromTransactionCheck : Bool

inductive ResponseCode | SUCCESS | SYSTEM_ERROR | MESSAGE_ILLEGAL | SERVICE_NOT_AVAILABLE
  deriving DecidableEq, Repr

structure RemotingCommand where
  code : ResponseCode
  remark : Option String
  deriving DecidableEq, Repr

/-- `MessageSysFlag.resetTransactionValue`. -/
def resetTransactionValue (flag type : Int32) : Int32 :=
  flag &&& ~~~TransactionRollbackType ||| type

/-- The three checks, with the remark of the one that fails. A message without a producer group
makes the first one throw. -/
def checkRequest (requestHeader : EndTransactionRequestHeader) (msgExt : MessageExt) :
    Except Unit (Option String) :=
  match msgExt.getProperty PROPERTY_PRODUCER_GROUP with
  | none => .error ()
  | some pgroupRead =>
    if pgroupRead ≠ requestHeader.producerGroup then .ok (some "the producer group wrong")
    else if msgExt.queueOffset ≠ requestHeader.tranStateTableOffset then
      .ok (some "the transaction state table offset wrong")
    else if msgExt.commitLogOffset ≠ requestHeader.commitLogOffset then
      .ok (some "the commit log offset wrong")
    else .ok none

/-- The filter type is the one of a message whose flags are not set yet, and the properties string
is made before the message is told not to wait and its delay is cleared. -/
def endMessageTransaction (order : EntryOrder) (msgExt : MessageExt) : MessageExtBrokerInner where
  topic := msgExt.topic
  flag := msgExt.flag
  properties := (msgExt.properties.put PROPERTY_WAIT_STORE_MSG_OK "false".toList).erase
    PROPERTY_DELAY_TIME_LEVEL
  body := msgExt.body
  queueId := msgExt.queueId
  queueOffset := 0
  sysFlag := msgExt.sysFlag
  bornTimestamp := msgExt.bornTimestamp
  bornHost := msgExt.bornHost
  storeTimestamp := 0
  storeHost := msgExt.storeHost
  bodyCRC := 0
  reconsumeTimes := msgExt.reconsumeTimes
  preparedTransactionOffset := 0
  propertiesString := some (messageProperties2String order msgExt.properties)
  tagsCode := tagsString2tagsCode (parseTopicFilterType 0) (msgExt.getProperty PROPERTY_TAGS)

/-- The message that is put. -/
def msgInner (order : EntryOrder) (requestHeader : EndTransactionRequestHeader)
    (msgExt : MessageExt) : MessageExtBrokerInner :=
  let m := endMessageTransaction order msgExt
  { m with
    sysFlag := resetTransactionValue m.sysFlag requestHeader.commitOrRollback
    queueOffset := requestHeader.tranStateTableOffset
    preparedTransactionOffset := requestHeader.commitLogOffset
    storeTimestamp := msgExt.storeTimestamp
    body := if TransactionRollbackType = requestHeader.commitOrRollback then none else m.body }

/-- The answer to what the store says. -/
def putResponse : PutMessageStatus → RemotingCommand
  | .PUT_OK | .FLUSH_DISK_TIMEOUT | .FLUSH_SLAVE_TIMEOUT | .SLAVE_NOT_AVAILABLE => ⟨.SUCCESS, none⟩
  | .CREATE_MAPEDFILE_FAILED => ⟨.SYSTEM_ERROR, some "create maped file failed."⟩
  | .MESSAGE_ILLEGAL =>
    ⟨.MESSAGE_ILLEGAL, some "the message is illegal, maybe length not matched."⟩
  | .SERVICE_NOT_AVAILABLE => ⟨.SERVICE_NOT_AVAILABLE, some "service not available now."⟩
  | .UNKNOWN_ERROR => ⟨.SYSTEM_ERROR, some "UNKNOWN_ERROR"⟩

/-- What `processRequest` comes to before the store is called. -/
inductive Ended
  /-- a pending answer, or one of another type: `null` is returned -/
  | silent
  | thrown
  | refused (remark : String)
  | ended (m : MessageExtBrokerInner)

/-- Up to the call of the store. The switches for an answer to a check and for one that was not
asked for differ in what they log. -/
def endTransaction (order : EntryOrder) (q : MapedFileQueue Bytes)
    (requestHeader : EndTransactionRequestHeader) : Ended :=
  if requestHeader.commitOrRollback = TransactionCommitType ∨
      requestHeader.commitOrRollback = TransactionRollbackType then
    match lookMessageByOffset q requestHeader.commitLogOffset with
    | .error _ => .thrown
    | .ok none => .refused "find prepared transaction message failed"
    | .ok (some msgExt) =>
      match checkRequest requestHeader msgExt with
      | .error _ => .thrown
      | .ok (some remark) => .refused remark
      | .ok none => .ended (msgInner order requestHeader msgExt)
  else .silent

/-- `EndTransactionProcessor.processRequest`; `none` is a `null` response. -/
def processRequest (cfg : MessageStoreConfig) (env : Env)
    (requestHeader : EndTransactionRequestHeader) (s : Store) :
    Store × Except Unit (Option RemotingCommand) :=
  match endTransaction env.entryOrder s.commitLog.mapedFileQueue requestHeader with
  | .silent => (s, .ok none)
  | .thrown => (s, .error ())
  | .refused remark => (s, .ok (some ⟨.SYSTEM_ERROR, some remark⟩))
  | .ended m =>
    let (s, r) := s.putMessage cfg env m
    (s, match r with
      | .error _ => .error ()
      | .ok put => .ok (some (putResponse put.result.putMessageStatus)))

/-! ### The timer -/

/-- A call of `gotoCheck`. -/
structure Check where
  producerGroupHashCode : Int32
  tranStateTableOffset : ℕ
  commitLogOffset : Int64
  msgSize : Int32
  deriving DecidableEq, Repr

/-- The number of the row that stands at `i` in its file. -/
def getTranStateOffset (f : MapedFile (List Row)) (i : ℕ) : ℕ :=
  (f.fileFromOffset + TSStoreUnitSize * i) / TSStoreUnitSize

/-- The loop of a timer task over the rows of its file, from the one with index `i` on; `now` is
the clock at each of them. A prepared row that is too young ends it. The time of a row is multiplied
as an `int`. -/
def checkRows (now : ℕ → Int64) (atleastInterval : Int64) (f : MapedFile (List Row)) :
    ℕ → List Row → List Check
  | _, [] => []
  | i, row :: rows =>
    if row.state ≠ TransactionPreparedType then checkRows now atleastInterval f (i + 1) rows
    else if now i - (row.timestamp * 1000).toInt64 < atleastInterval then []
    else ⟨row.groupHashCode, getTranStateOffset f i, row.clOffset, row.size⟩ ::
      checkRows now atleastInterval f (i + 1) rows

/-- One run of the timer task of a file. -/
def checkFile (now : ℕ → Int64) (atleastInterval : Int64) (f : MapedFile (List Row)) : List Check :=
  if 0 < f.wrotePostion ∧ f.available then
    checkRows now atleastInterval f 0 (unitsOf TSStoreUnitSize f)
  else []

end CloudMQ.EndTransaction
