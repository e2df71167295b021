import CloudMQ.Strings

/-!
Messages as the broker hands them to the store, their properties, and the results the store
passes around: `Message`, `MessageExt`, `MessageExtBrokerInner`, `MessageDecoder`,
`MessageSysFlag`, `ScheduleMessageService`, `DispatchRequest`.

A Java `int` is an `Int32`, a `long` an `Int64`, a `null` reference `none`. The default charset
is UTF-8.
-/

namespace CloudMQ.Message

open CloudMQ.Buffer CloudMQ.Utf8 CloudMQ.Strings

/-! ### Properties -/

/-- A `HashMap<String, String>` by its entries. A `null` map behaves like an empty one. -/
structure Props where
  entries : List (Text × Text)
  nodup : (entries.map Prod.fst).Nodup

namespace Props

def empty : Props := ⟨[], List.nodup_nil⟩

def get (m : Props) (name : Text) : Option Text := m.entries.lookup name

def eraseEntries (name : Text) (l : List (Text × Text)) : List (Text × Text) :=
  l.filter fun e => e.1 != name

lemma nodup_erase {l : List (Text × Text)} (name : Text) (h : (l.map Prod.fst).Nodup) :
    ((eraseEntries name l).map Prod.fst).Nodup :=
  h.sublist (List.filter_sublist.map Prod.fst)

/-- `Map.remove`. -/
def erase (m : Props) (name : Text) : Props :=
  ⟨eraseEntries name m.entries, nodup_erase name m.nodup⟩

/-- `Map.put`. -/
def put (m : Props) (name value : Text) : Props where
  entries := (name, value) :: eraseEntries name m.entries
  nodup := by
    rw [List.map_cons, List.nodup_cons]
    refine ⟨?_, nodup_erase name m.nodup⟩
    simp [eraseEntries]

lemma lookup_filter_ne {name other : Text} (h : name ≠ other) (l : List (Text × Text)) :
    (l.filter fun e => e.1 != name).lookup other = l.lookup other := by
  induction l with
  | nil => rfl
  | cons e l ih =>
    obtain ⟨n, v⟩ := e
    by_cases hn : n = name
    · have ho : (other == n) = false := by
        rw [hn]; exact beq_eq_false_iff_ne.mpr (Ne.symm h)
      rw [List.filter_cons_of_neg (by simp [hn]), ih, List.lookup_cons, ho]
    · rw [List.filter_cons_of_pos (by simp [hn]), List.lookup_cons, List.lookup_cons, ih]

@[simp] lemma get_put_self (m : Props) (name value : Text) :
    (m.put name value).get name = some value := by
  simp [get, put]

lemma get_put_of_ne {m : Props} {name other : Text} (value : Text) (h : name ≠ other) :
    (m.put name value).get other = m.get other := by
  have ho : (other == name) = false := beq_eq_false_iff_ne.mpr (Ne.symm h)
  simp only [get, put, List.lookup_cons, ho]
  exact lookup_filter_ne h m.entries

end Props

lemma Props.perm_entries (m : Props) : m.entries.Perm m.entries := List.Perm.refl _

/-- An enumeration order of `HashMap.entrySet()`: every entry once, in whatever order. -/
structure EntryOrder where
  entrySet : Props → List (Text × Text)
  perm : ∀ m, (entrySet m).Perm m.entries

def PROPERTY_KEYS : Text := "KEYS".toList
def PROPERTY_TAGS : Text := "TAGS".toList
def PROPERTY_WAIT_STORE_MSG_OK : Text := "WAIT".toList
def PROPERTY_DELAY_TIME_LEVEL : Text := "DELAY".toList
def PROPERTY_REAL_TOPIC : Text := "REAL_TOPIC".toList
def PROPERTY_REAL_QUEUE_ID : Text := "REAL_QID".toList
def PROPERTY_PRODUCER_GROUP : Text := "PGROUP".toList

def NAME_VALUE_SEPARATOR : Char := Char.ofNat 1
def PROPERTY_SEPARATOR : Char := Char.ofNat 2

def messageProperties2String (order : EntryOrder) (m : Props) : Text :=
  (order.entrySet m).flatMap fun e => e.1 ++ NAME_VALUE_SEPARATOR :: e.2 ++ [PROPERTY_SEPARATOR]

def string2messageProperties (s : Text) : Props :=
  (split PROPERTY_SEPARATOR s).foldl (fun m item =>
    match split NAME_VALUE_SEPARATOR item with
    | [name, value] => m.put name value
    | _ => m) Props.empty

/-! ### System flags and tags -/

def TransactionNotType : Int32 := 0
def TransactionPreparedType : Int32 := 4
def TransactionCommitType : Int32 := 8
def TransactionRollbackType : Int32 := 12

def getTransactionValue (flag : Int32) : Int32 := flag &&& TransactionRollbackType

inductive TopicFilterType | SINGLE_TAG | MULTI_TAG
  deriving DecidableEq, Repr

def MultiTagsFlag : Int32 := 2

def parseTopicFilterType (sysFlag : Int32) : TopicFilterType :=
  if sysFlag &&& MultiTagsFlag = MultiTagsFlag then .MULTI_TAG else .SINGLE_TAG

/-- The filter type is not looked at. -/
def tagsString2tagsCode (_ : TopicFilterType) : Option Text → Int64
  | none => 0
  | some tags => if tags = [] then 0 else (hashCode tags).toInt64

/-! ### Hosts -/

inductive InetAddress
  | inet4 (a b c d : UInt8)
  | inet6 (bytes : Bytes)

structure InetSocketAddress where
  address : InetAddress
  port : Int32

/-- Eight bytes are allocated; an IPv6 address overflows them. -/
def SocketAddress2ByteBuffer (h : InetSocketAddress) : Option Bytes :=
  match h.address with
  | .inet4 a b c d => some ([a, b, c, d] ++ putInt h.port)
  | .inet6 _ => none

lemma length_hostBytes {h : InetSocketAddress} {bs : Bytes}
    (hs : SocketAddress2ByteBuffer h = some bs) : bs.length = 8 := by
  unfold SocketAddress2ByteBuffer at hs
  split at hs
  · simp only [Option.some.injEq] at hs
    rw [← hs]; simp
  · exact absurd hs (by simp)

/-! ### Messages -/

/-- A Java byte array: its length is an `int`. -/
abbrev ByteArr := {bs : Bytes // bs.length < 2 ^ 31}

structure MessageExtBrokerInner where
  topic : Text
  flag : Int32
  properties : Props
  body : Option ByteArr
  queueId : Int32
  queueOffset : Int64
  sysFlag : Int32
  bornTimestamp : Int64
  bornHost : InetSocketAddress
  storeTimestamp : Int64
  storeHost : InetSocketAddress
  bodyCRC : Int32
  reconsumeTimes : Int32
  preparedTransactionOffset : Int64
  propertiesString : Option Text
  tagsCode : Int64

namespace MessageExtBrokerInner

variable (m : MessageExtBrokerInner)

def getProperty (name : Text) : Option Text := m.properties.get name
def getTags : Option Text := m.getProperty PROPERTY_TAGS
def getKeys : Option Text := m.getProperty PROPERTY_KEYS

def putProperty (name value : Text) : MessageExtBrokerInner :=
  { m with properties := m.properties.put name value }

/-- `none` is a `NumberFormatException`. -/
def getDelayTimeLevel : Option Int32 :=
  match m.getProperty PROPERTY_DELAY_TIME_LEVEL with
  | none => some 0
  | some t => parseInt t

def setDelayTimeLevel (level : Int32) : MessageExtBrokerInner :=
  m.putProperty PROPERTY_DELAY_TIME_LEVEL (valueOf level)

/-- `Boolean.parseBoolean` ignores case. -/
def isWaitStoreMsgOK : Bool :=
  match m.getProperty PROPERTY_WAIT_STORE_MSG_OK with
  | none => true
  | some t => t.map Char.toLower == "true".toList

/-- The bytes of the body; a missing body has none. -/
def bodyBytes : Bytes := (m.body.map Subtype.val).getD []

/-- The bytes of the properties string; a missing string has none. -/
def propertiesData : Bytes := (m.propertiesString.map utf8Encode).getD []

def topicData : Bytes := utf8Encode m.topic

end MessageExtBrokerInner

/-! ### CRC -/

def crcBit (c : BitVec 32) : BitVec 32 :=
  if c.getLsbD 0 then (c >>> 1) ^^^ 0xEDB88320#32 else c >>> 1

/-- One byte through the table of `PureJavaCrc32`: eight steps of the polynomial. -/
def crcByte (c : BitVec 32) (b : UInt8) : BitVec 32 :=
  crcBit^[8] (c ^^^ b.toBitVec.setWidth 32)

/-- `UtilAll.crc32`: the sign bit is dropped. -/
def crc32 (bs : Bytes) : Int32 :=
  Int32.ofBitVec (~~~(bs.foldl crcByte 0xFFFFFFFF#32) &&& 0x7FFFFFFF#32)

/-! ### Delay levels -/

/-- The parsed delay levels: `delays` holds the delay of level 1, 2, … in milliseconds. -/
structure ScheduleMessageService where
  delays : List Int64
  nonempty : delays ≠ []
  lt : delays.length < 2 ^ 31

def SCHEDULE_TOPIC : Text := "SCHEDULE_TOPIC_XXXX".toList

namespace ScheduleMessageService

variable (svc : ScheduleMessageService)

def getMaxDelayLevel : Int32 := Int32.ofNat svc.delays.length

def delayLevelTable (level : Int32) : Option Int64 :=
  if 1 ≤ level.toInt then svc.delays[level.toInt.toNat - 1]? else none

def computeDeliverTimestamp (delayLevel : Int32) (storeTimestamp : Int64) : Int64 :=
  match svc.delayLevelTable delayLevel with
  | some time => time + storeTimestamp
  | none => storeTimestamp + 1000

/-- Levels above the highest count as the highest. -/
def capLevel (level : Int32) : Int32 :=
  if level > svc.getMaxDelayLevel then svc.getMaxDelayLevel else level

lemma toInt_getMaxDelayLevel : svc.getMaxDelayLevel.toInt = svc.delays.length := by
  rw [getMaxDelayLevel, Int32.toInt_ofNat_of_lt svc.lt]

lemma getMaxDelayLevel_pos : 0 < svc.getMaxDelayLevel.toInt := by
  have := List.length_pos_of_ne_nil svc.nonempty
  rw [svc.toInt_getMaxDelayLevel]
  omega

end ScheduleMessageService

def delayLevel2QueueId (delayLevel : Int32) : Int32 := delayLevel - 1

/-! ### Dispatch requests -/

structure DispatchRequest where
  topic : Text
  queueId : Int32
  commitLogOffset : Int64
  msgSize : Int32
  tagsCode : Int64
  storeTimestamp : Int64
  consumeQueueOffset : Int64
  keys : Option Text
  sysFlag : Int32
  tranStateTableOffset : Int64
  preparedTransactionOffset : Int64
  producerGroup : Option Text
  deriving DecidableEq

/-- `new DispatchRequest(size)`. -/
def DispatchRequest.ofSize (size : Int32) : DispatchRequest where
  topic := []
  queueId := 0
  commitLogOffset := 0
  msgSize := size
  tagsCode := 0
  storeTimestamp := 0
  consumeQueueOffset := 0
  keys := some []
  sysFlag := 0
  tranStateTableOffset := 0
  preparedTransactionOffset := 0
  producerGroup := some []

end CloudMQ.Message
