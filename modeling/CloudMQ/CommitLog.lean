import CloudMQ.Chain
import CloudMQ.Codec

/-!
Storing a message: `MapedFile.appendMessage`, `CommitLog.putMessage` and
`DefaultMessageStore.putMessage`, one call at a time.

What a call cannot decide is part of its environment: the two readings of the clock, the order
in which a hash map lists its entries, the memory of new files, the old contents of
`msgStoreItemMemory`, and how the waits for the disk and for the slave end.
-/

namespace CloudMQ.CommitLog

open CloudMQ.Buffer CloudMQ.Utf8 CloudMQ.Strings CloudMQ.Message CloudMQ.Record CloudMQ.Codec
open CloudMQ.Segment

inductive FlushDiskType | SYNC_FLUSH | ASYNC_FLUSH
  deriving DecidableEq, Repr

inductive BrokerRole | ASYNC_MASTER | SYNC_MASTER | SLAVE
  deriving DecidableEq, Repr

/-- The message buffer is allocated with an `int` length. -/
structure MessageStoreConfig where
  maxMessageSize : ℕ
  maxMessageSize_lt : maxMessageSize + END_FILE_MIN_BLANK_LENGTH < 2 ^ 31
  flushDiskType : FlushDiskType
  brokerRole : BrokerRole
  scheduleMessageService : ScheduleMessageService

inductive PutMessageStatus
  | PUT_OK
  | FLUSH_DISK_TIMEOUT
  | FLUSH_SLAVE_TIMEOUT
  | SLAVE_NOT_AVAILABLE
  | SERVICE_NOT_AVAILABLE
  | CREATE_MAPEDFILE_FAILED
  | MESSAGE_ILLEGAL
  | UNKNOWN_ERROR
  deriving DecidableEq, Repr

structure PutMessageResult where
  putMessageStatus : PutMessageStatus
  appendMessageResult : Option AppendMessageResult

structure Env where
  /-- the clock before the lock is taken -/
  currentTimeMillis : Int64
  /-- the clock inside the lock -/
  beginLockTimestamp : Int64
  entryOrder : EntryOrder
  /-- contents of the files that are created, `none` when that fails -/
  mapedFile1 : Option (ℕ → UInt8)
  mapedFile2 : Option (ℕ → UInt8)
  msgStoreItemMemory1 : ℕ → UInt8
  msgStoreItemMemory2 : ℕ → UInt8
  /-- what the waits answer -/
  flushOK : Bool
  isSlaveOK : Bool
  transferOK : Bool

structure Log where
  mapedFileQueue : MapedFileQueue Bytes
  counters : Counters

/-! ### Appending -/

/-- The memory of a mapped file of `size` bytes. -/
def mapMemory (size : ℕ) (contents : ℕ → UInt8) : Bytes := (List.range size).map contents

@[simp] lemma length_mapMemory (size : ℕ) (contents : ℕ → UInt8) :
    (mapMemory size contents).length = size := by simp [mapMemory]

/-- `MapedFile.appendMessage(msg, cb)`. -/
def appendMessage (maxMessageSize : ℕ) (memory : ℕ → UInt8) (size : ℕ) (f : MapedFile Bytes)
    (m : MessageExtBrokerInner) (c : Counters) :
    Counters × Except Thrown (AppendMessageResult × MapedFile Bytes) :=
  if f.wrotePostion < size then
    match doAppend maxMessageSize memory f.fileFromOffset f.wrotePostion
        (f.mappedByteBuffer.length - f.wrotePostion) (size - f.wrotePostion) m c with
    | (c, .error e) => (c, .error e)
    | (c, .ok (result, bs)) =>
      (c, .ok (result, { f with
        mappedByteBuffer := overwrite f.mappedByteBuffer f.wrotePostion bs
        wrotePostion := f.wrotePostion + result.wroteBytes
        storeTimestamp := result.storeTimestamp }))
  else (c, .ok (.ofStatus .UNKNOWN_ERROR, f))

/-- What one append through the last file comes to. -/
inductive Appended
  | noFile
  | thrown (e : Thrown)
  | done (result : AppendMessageResult)

variable (cfg : MessageStoreConfig)

/-- `getLastMapedFile` and `appendMessage`. -/
def appendLast (fresh : Option (ℕ → UInt8)) (memory : ℕ → UInt8) (m : MessageExtBrokerInner)
    (log : Log) : Log × Appended :=
  let size := log.mapedFileQueue.mapedFileSize
  match log.mapedFileQueue.getLastMapedFile 0 (fresh.map (mapMemory size)) with
  | (none, q) => ({ log with mapedFileQueue := q }, .noFile)
  | (some f, q) =>
    match appendMessage cfg.maxMessageSize memory size f m log.counters with
    | (c, .error e) => (⟨q, c⟩, .thrown e)
    | (c, .ok (result, f')) => (⟨q.setLast f', c⟩, .done result)

/-- What the synchronised part of `putMessage` comes to. -/
inductive Locked
  | thrown (e : Thrown)
  | failed (status : PutMessageStatus) (result : Option AppendMessageResult)
  | stored (result : AppendMessageResult)

/-- The switch over the result of the first append. The result of the second one is taken as it
is. -/
def putLocked (env : Env) (m : MessageExtBrokerInner) (log : Log) : Log × Locked :=
  match appendLast cfg env.mapedFile1 env.msgStoreItemMemory1 m log with
  | (log, .noFile) => (log, .failed .CREATE_MAPEDFILE_FAILED none)
  | (log, .thrown e) => (log, .thrown e)
  | (log, .done result) =>
    match result.status with
    | .PUT_OK => (log, .stored result)
    | .END_OF_FILE =>
      match appendLast cfg env.mapedFile2 env.msgStoreItemMemory2 m log with
      | (log, .noFile) => (log, .failed .CREATE_MAPEDFILE_FAILED (some result))
      | (log, .thrown e) => (log, .thrown e)
      | (log, .done result) => (log, .stored result)
    | .MESSAGE_SIZE_EXCEEDED => (log, .failed .MESSAGE_ILLEGAL (some result))
    | .UNKNOWN_ERROR => (log, .failed .UNKNOWN_ERROR (some result))

/-! ### `CommitLog.putMessage` -/

/-- A message with a delay level goes to the schedule topic; its own topic and queue are kept
as properties. The second component is the tags code, the time of delivery. -/
def redirect (order : EntryOrder) (m : MessageExtBrokerInner) :
    Option (MessageExtBrokerInner × Int64) := do
  let svc := cfg.scheduleMessageService
  let level ← m.getDelayTimeLevel
  let m := if level > svc.getMaxDelayLevel then m.setDelayTimeLevel svc.getMaxDelayLevel else m
  let level ← m.getDelayTimeLevel
  let tagsCode := svc.computeDeliverTimestamp level m.storeTimestamp
  let m := m.putProperty PROPERTY_REAL_TOPIC m.topic
  let m := m.putProperty PROPERTY_REAL_QUEUE_ID (valueOf m.queueId)
  let propertiesString := messageProperties2String order m.properties
  return ({ m with propertiesString := some propertiesString, topic := SCHEDULE_TOPIC,
                   queueId := delayLevel2QueueId level }, tagsCode)

/-- Is the message redirected? `none` is a `NumberFormatException`. -/
def isDelayed (m : MessageExtBrokerInner) : Option Bool :=
  let tranType := getTransactionValue m.sysFlag
  if tranType = TransactionNotType ∨ tranType = TransactionCommitType then
    m.getDelayTimeLevel.map fun level => decide (0 < level)
  else some false

/-- A first timestamp, and the CRC of the body. -/
def checksum (env : Env) (m : MessageExtBrokerInner) : MessageExtBrokerInner :=
  { m with storeTimestamp := env.currentTimeMillis,
           bodyCRC := (m.body.map fun b => crc32 b.val).getD 0 }

/-- The part before the lock. -/
def prepare (env : Env) (m : MessageExtBrokerInner) : Option (MessageExtBrokerInner × Int64) := do
  let m := checksum env m
  if ← isDelayed m then redirect cfg env.entryOrder m else return (m, m.tagsCode)

/-- The message as it is serialised. -/
def stamp (env : Env) (m : MessageExtBrokerInner) : MessageExtBrokerInner :=
  { m with storeTimestamp := env.beginLockTimestamp }

/-- The request that is handed to the dispatch service. -/
def dispatchRequest (m : MessageExtBrokerInner) (tagsCode : Int64)
    (result : AppendMessageResult) : DispatchRequest where
  topic := m.topic
  queueId := m.queueId
  commitLogOffset := Int64.ofNat result.wroteOffset
  msgSize := Int32.ofNat result.wroteBytes
  tagsCode := tagsCode
  storeTimestamp := m.storeTimestamp
  consumeQueueOffset := result.logicsOffset
  keys := m.getKeys
  sysFlag := m.sysFlag
  tranStateTableOffset := m.queueOffset
  preparedTransactionOffset := m.preparedTransactionOffset
  producerGroup := m.getProperty PROPERTY_PRODUCER_GROUP

/-- The waits at the end: for the disk, then for the slave. -/
def waitStore (env : Env) (m : MessageExtBrokerInner) : PutMessageStatus :=
  let flushed :=
    if cfg.flushDiskType = .SYNC_FLUSH ∧ m.isWaitStoreMsgOK ∧ ¬ env.flushOK then
      PutMessageStatus.FLUSH_DISK_TIMEOUT
    else .PUT_OK
  if cfg.brokerRole = .SYNC_MASTER ∧ m.isWaitStoreMsgOK then
    if env.isSlaveOK then (if env.transferOK then flushed else .FLUSH_SLAVE_TIMEOUT)
    else .SLAVE_NOT_AVAILABLE
  else flushed

/-- The result of a call that returns, with the request it dispatched. -/
structure Put where
  result : PutMessageResult
  dispatched : Option DispatchRequest

/-- `CommitLog.putMessage`. -/
def putMessage (env : Env) (m : MessageExtBrokerInner) (log : Log) : Log × Except Thrown Put :=
  match prepare cfg env m with
  | none => (log, .error .numberFormat)
  | some (m, tagsCode) =>
    let m := stamp env m
    match putLocked cfg env m log with
    | (log, .thrown e) => (log, .error e)
    | (log, .failed status result) => (log, .ok ⟨⟨status, result⟩, none⟩)
    | (log, .stored result) =>
      (log, .ok ⟨⟨waitStore cfg env m, some result⟩, some (dispatchRequest m tagsCode result)⟩)

/-! ### `DefaultMessageStore.putMessage` -/

/-- The admission check counts characters. -/
def isLegal (m : MessageExtBrokerInner) : Bool :=
  decide (length m.topic ≤ 127) && m.propertiesString.all fun s => decide (length s ≤ 32767)

structure Store where
  shutdown : Bool
  writeable : Bool
  commitLog : Log

def Store.putMessage (env : Env) (m : MessageExtBrokerInner) (s : Store) :
    Store × Except Thrown Put :=
  if s.shutdown ∨ cfg.brokerRole = .SLAVE ∨ ¬ s.writeable then
    (s, .ok ⟨⟨.SERVICE_NOT_AVAILABLE, none⟩, none⟩)
  else if !isLegal m then (s, .ok ⟨⟨.MESSAGE_ILLEGAL, none⟩, none⟩)
  else
    let (log, r) := CommitLog.putMessage cfg env m s.commitLog
    ({ s with commitLog := log }, r)

end CloudMQ.CommitLog
