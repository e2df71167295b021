import CloudMQ.Message

/-!
The record layout of the commit log, as it is written and as it is read.

`doAppend` serialises a message behind the records of a segment file, or fills the file up with
a blank record when the message does not fit. `checkMessageAndReturnSize` reads one record back.
The two functions spell the layout out independently of each other.
-/

namespace CloudMQ.Record

open CloudMQ.Buffer CloudMQ.Utf8 CloudMQ.Strings CloudMQ.Message

/-- Message's MAGIC CODE daa320a7 -/
def MessageMagicCode : Int32 := Int32.ofNat 0xAABBCCDD ^^^ (1880681586 + 8)
/-- End of file empty MAGIC CODE cbd43194 -/
def BlankMagicCode : Int32 := Int32.ofNat 0xBBCCDDEE ^^^ (1880681586 + 8)
/-- File at the end of the minimum fixed length empty -/
def END_FILE_MIN_BLANK_LENGTH : ℕ := 4 + 4

/-! ### Writing -/

inductive AppendMessageStatus | PUT_OK | END_OF_FILE | MESSAGE_SIZE_EXCEEDED | UNKNOWN_ERROR
  deriving DecidableEq, Repr

structure AppendMessageResult where
  status : AppendMessageStatus
  wroteOffset : ℕ
  wroteBytes : ℕ
  msgId : Text
  storeTimestamp : Int64
  logicsOffset : Int64

def AppendMessageResult.ofStatus (status : AppendMessageStatus) : AppendMessageResult :=
  ⟨status, 0, 0, [], 0, 0⟩

/-- The runtime exceptions that leave `doAppend`, by the buffer they come from. -/
inductive Thrown
  /-- an IPv6 host does not fit the eight bytes of `SocketAddress2ByteBuffer` -/
  | hostOverflow
  /-- `msgStoreItemMemory.limit` with a negative length or one above the capacity -/
  | illegalLimit
  /-- a put behind the limit of `msgStoreItemMemory` -/
  | memoryOverflow
  /-- a put behind the end of the mapped file -/
  | sliceOverflow
  /-- `Integer.parseInt` on a delay level that is not a number -/
  | numberFormat
  deriving DecidableEq, Repr

/-- The counters queue offsets come from: `topicQueueTable` by the key `topic-queueId`, and the
next row of the transaction state table. -/
structure Counters where
  topicQueueTable : Text → Option Int64
  tranStateTableOffset : Int64

def queueKey (topic : Text) (queueId : Int32) : Text := topic ++ '-' :: valueOf queueId

def hexDigit (n : ℕ) : Char := (Nat.digitChar n).toUpper

def bytes2string (bs : Bytes) : Text :=
  bs.flatMap fun b => [hexDigit (b.toNat / 16), hexDigit (b.toNat % 16)]

def createMessageId (addr : Bytes) (offset : ℕ) : Text :=
  bytes2string (addr ++ putLong (Int64.ofNat offset))

/-- The record of a message, field by field. -/
def recordBytes (m : MessageExtBrokerInner) (msgLen : Int32) (bornHost storeHost : Bytes)
    (queueOffset : Int64) (physicOffset : ℕ) : Bytes :=
  putInt msgLen ++                                      -- 1 TOTALSIZE
  putInt MessageMagicCode ++                            -- 2 MAGICCODE
  putInt m.bodyCRC ++                                   -- 3 BODYCRC
  putInt m.queueId ++                                   -- 4 QUEUEID
  putInt m.flag ++                                      -- 5 FLAG
  putLong queueOffset ++                                -- 6 QUEUEOFFSET
  putLong (Int64.ofNat physicOffset) ++                 -- 7 PHYSICALOFFSET
  putInt m.sysFlag ++                                   -- 8 SYSFLAG
  putLong m.bornTimestamp ++                            -- 9 BORNTIMESTAMP
  bornHost ++                                           -- 10 BORNHOST
  putLong m.storeTimestamp ++                           -- 11 STORETIMESTAMP
  storeHost ++                                          -- 12 STOREHOSTADDRESS
  putInt m.reconsumeTimes ++                            -- 13 RECONSUMETIMES
  putLong m.preparedTransactionOffset ++                -- 14 Prepared Transaction Offset
  putInt (Int32.ofNat m.bodyBytes.length) ++            -- 15 BODY
  m.bodyBytes ++
  [UInt8.ofNat m.topicData.length] ++                   -- 16 TOPIC
  m.topicData ++
  putShort m.propertiesData.length ++                   -- 17 PROPERTIES
  m.propertiesData

/-- The number of bytes of the record, before it is narrowed to an `int`. -/
def recordSize (m : MessageExtBrokerInner) : ℕ :=
  91 + m.bodyBytes.length + m.topicData.length + m.propertiesData.length

/-- The `int` sum `msgLen`. -/
def msgLen (m : MessageExtBrokerInner) : ℤ := (BitVec.ofNat 32 (recordSize m)).toInt

/-- The bytes that fill a file up: the eight of the blank record, then whatever
`msgStoreItemMemory` held. -/
def blankBytes (memory : ℕ → UInt8) (maxBlank : ℕ) : Bytes :=
  putInt (Int32.ofNat maxBlank) ++ putInt BlankMagicCode ++
    (List.range (maxBlank - 8)).map fun i => memory (i + 8)

variable (maxMessageSize : ℕ)

/-- The queue offset a record carries, by transaction type. -/
def recordQueueOffset (m : MessageExtBrokerInner) (c : Counters) : Int64 :=
  let tranType := getTransactionValue m.sysFlag
  if tranType = TransactionPreparedType then c.tranStateTableOffset
  else if tranType = TransactionRollbackType then m.queueOffset
  else (c.topicQueueTable (queueKey m.topic m.queueId)).getD 0

/-- The key of the message is in the table from here on. -/
def Counters.touch (c : Counters) (m : MessageExtBrokerInner) : Counters :=
  let key := queueKey m.topic m.queueId
  ⟨Function.update c.topicQueueTable key (some ((c.topicQueueTable key).getD 0)),
    c.tranStateTableOffset⟩

/-- What the counters are after the message was written. -/
def Counters.advance (c : Counters) (m : MessageExtBrokerInner) : Counters :=
  let tranType := getTransactionValue m.sysFlag
  if tranType = TransactionPreparedType then
    { c with tranStateTableOffset := c.tranStateTableOffset + 1 }
  else if tranType = TransactionRollbackType then c
  else
    ⟨Function.update c.topicQueueTable (queueKey m.topic m.queueId)
      (some (recordQueueOffset m c + 1)), c.tranStateTableOffset⟩

/-- The blank record: `maxBlank` is the limit, so at least eight bytes are needed. -/
def appendBlank (memory : ℕ → UInt8) (remaining maxBlank : ℕ) : Except Thrown Bytes :=
  if maxMessageSize + END_FILE_MIN_BLANK_LENGTH < maxBlank then .error .illegalLimit
  else if maxBlank < 8 then .error .memoryOverflow
  else if remaining < maxBlank then .error .sliceOverflow
  else .ok (blankBytes memory maxBlank)

/-- The record itself, through `msgStoreItemMemory` into the file. -/
def appendRecord (remaining : ℕ) (m : MessageExtBrokerInner) (storeHost : Bytes)
    (queueOffset : Int64) (physicOffset : ℕ) : Except Thrown Bytes :=
  if msgLen m < 0 ∨ maxMessageSize + END_FILE_MIN_BLANK_LENGTH < msgLen m then
    .error .illegalLimit
  else match SocketAddress2ByteBuffer m.bornHost with
    | none => .error .hostOverflow
    | some bornHost =>
      let bs := recordBytes m (Int32.ofInt (msgLen m)) bornHost storeHost queueOffset physicOffset
      if msgLen m < bs.length then .error .memoryOverflow
      else if remaining < msgLen m then .error .sliceOverflow
      else .ok bs

/-- `DefaultAppendMessageCallback.doAppend`. The mapped buffer stands at `position` with
`remaining` bytes behind it; the result comes with the bytes put there and the counters. -/
def doAppend (memory : ℕ → UInt8) (fileFromOffset position remaining maxBlank : ℕ)
    (m : MessageExtBrokerInner) (c : Counters) :
    Counters × Except Thrown (AppendMessageResult × Bytes) :=
  let wroteOffset := fileFromOffset + position
  match SocketAddress2ByteBuffer m.storeHost with
  | none => (c, .error .hostOverflow)
  | some storeHost =>
    let msgId := createMessageId storeHost wroteOffset
    let c := c.touch m
    let queueOffset := recordQueueOffset m c
    if maxMessageSize < msgLen m then (c, .ok (.ofStatus .MESSAGE_SIZE_EXCEEDED, []))
    else if maxBlank < msgLen m + END_FILE_MIN_BLANK_LENGTH then
      match appendBlank maxMessageSize memory remaining maxBlank with
      | .error e => (c, .error e)
      | .ok bs =>
        (c, .ok (⟨.END_OF_FILE, wroteOffset, maxBlank, msgId, m.storeTimestamp, queueOffset⟩, bs))
    else
      match appendRecord maxMessageSize remaining m storeHost queueOffset wroteOffset with
      | .error e => (c, .error e)
      | .ok bs =>
        (c.advance m, .ok (⟨.PUT_OK, wroteOffset, (msgLen m).toNat, msgId, m.storeTimestamp,
          queueOffset⟩, bs))

/-! ### Reading -/

/-- `byteBuffer.get(bytesContent, 0, len)` into an array of `cap` bytes. -/
def getInto (cap : ℕ) (len : ℤ) : Reader Bytes :=
  if len < 0 ∨ cap < len then Reader.fail else getBytes len.toNat

/-- The fields between the magic code and the body. -/
structure Fixed where
  bodyCRC : Int32
  queueId : Int32
  flag : Int32
  queueOffset : Int64
  physicOffset : Int64
  sysFlag : Int32
  bornTimeStamp : Int64
  storeTimestamp : Int64
  reconsumeTimes : Int32
  preparedTransactionOffset : Int64

def readFixed (cap : ℕ) : Reader Fixed := do
  let bodyCRC ← getInt
  let queueId ← getInt
  let flag ← getInt
  let queueOffset ← getLong
  let physicOffset ← getLong
  let sysFlag ← getInt
  let bornTimeStamp ← getLong
  let _ ← getInto cap 8
  let storeTimestamp ← getLong
  let _ ← getInto cap 8
  let reconsumeTimes ← getInt
  let preparedTransactionOffset ← getLong
  return { bodyCRC, queueId, flag, queueOffset, physicOffset, sysFlag, bornTimeStamp,
           storeTimestamp, reconsumeTimes, preparedTransactionOffset }

/-- The body; the answer is whether its CRC is acceptable. -/
def readBodyPart (cap : ℕ) (checkCRC readBody : Bool) (bodyCRC : Int32) : Reader Bool := do
  let bodyLen ← getInt
  if 0 < bodyLen.toInt then
    if readBody then
      let body ← getInto cap bodyLen.toInt
      return !(checkCRC && crc32 body != bodyCRC)
    else
      let _ ← getBytes bodyLen.toInt.toNat
      return true
  else return true

def readTopic (cap : ℕ) : Reader Text := do
  let topicLen ← getByte
  let bytes ← getInto cap topicLen
  return utf8Decode bytes

/-- The tags code of a record: the hash of its tags, or its delivery time when it waits in the
schedule topic. A store without a schedule service fails on such a record. -/
def readTagsCode (svc : Option ScheduleMessageService) (topic : Text) (sysFlag : Int32)
    (storeTimestamp : Int64) (propertiesMap : Props) : Option Int64 :=
  let tagsCode : Int64 := match propertiesMap.get PROPERTY_TAGS with
    | some tags => if 0 < tags.length then
        tagsString2tagsCode (parseTopicFilterType sysFlag) (some tags) else 0
    | none => 0
  match propertiesMap.get PROPERTY_DELAY_TIME_LEVEL with
  | none => some tagsCode
  | some t =>
    if SCHEDULE_TOPIC = topic then do
      let delayLevel ← parseInt t
      let svc ← svc
      let delayLevel := svc.capLevel delayLevel
      return if 0 < delayLevel.toInt then svc.computeDeliverTimestamp delayLevel storeTimestamp
        else tagsCode
    else some tagsCode

/-- The properties, as far as the request needs them: tags code and keys. -/
def readProperties (cap : ℕ) (svc : Option ScheduleMessageService) (topic : Text)
    (f : Fixed) : Reader (Int64 × Option Text) := do
  let propertiesLength ← getShort
  if 0 < propertiesLength then
    let bytes ← getInto cap propertiesLength
    let propertiesMap := string2messageProperties (utf8Decode bytes)
    let tagsCode ← Reader.ofOption
      (readTagsCode svc topic f.sysFlag f.storeTimestamp propertiesMap)
    return (tagsCode, propertiesMap.get PROPERTY_KEYS)
  else return (0, some [])

/-- Topic and properties, and the request made of the whole record. -/
def readText (cap : ℕ) (svc : Option ScheduleMessageService) (totalSize : Int32) (f : Fixed) :
    Reader DispatchRequest := do
  let topic ← readTopic cap
  let (tagsCode, keys) ← readProperties cap svc topic f
  return { topic, queueId := f.queueId, commitLogOffset := f.physicOffset,
           msgSize := totalSize, tagsCode, storeTimestamp := f.storeTimestamp,
           consumeQueueOffset := f.queueOffset, keys, sysFlag := f.sysFlag,
           tranStateTableOffset := 0,
           preparedTransactionOffset := f.preparedTransactionOffset, producerGroup := none }

def readMessage (cap : ℕ) (svc : Option ScheduleMessageService) (checkCRC readBody : Bool)
    (totalSize : Int32) : Reader DispatchRequest := do
  let f ← readFixed cap
  let crcOK ← readBodyPart cap checkCRC readBody f.bodyCRC
  if crcOK then readText cap svc totalSize f else return .ofSize (-1)

def readRecord (cap : ℕ) (svc : Option ScheduleMessageService) (checkCRC readBody : Bool) :
    Reader DispatchRequest := do
  let totalSize ← getInt
  let magicCode ← getInt
  if magicCode = MessageMagicCode then readMessage cap svc checkCRC readBody totalSize
  else if magicCode = BlankMagicCode then return .ofSize 0
  else return .ofSize (-1)

/-- `checkMessageAndReturnSize`: the request and the bytes left unread. An exception moves the
buffer to its limit and answers −1. -/
def checkMessageAndReturnSize (svc : Option ScheduleMessageService) (checkCRC readBody : Bool)
    (byteBuffer : Bytes) : DispatchRequest × Bytes :=
  match (readRecord (maxMessageSize + END_FILE_MIN_BLANK_LENGTH) svc checkCRC readBody).run
      byteBuffer with
  | some (d, rest) => (d, rest)
  | none => (.ofSize (-1), [])

end CloudMQ.Record
