import CloudMQ.MessageEncoder
import CloudMQ.SlavePulls

/-!
The filter server between a broker and a consumer: `pullMessageForward` pulls messages, keeps the
ones that the filter class matches, and writes them as records again.

The records are written with a layout of their own. A body may be compressed once more, and the
flag says so. The lengths of topic and properties are cut to a `byte` and a `short`. The client has
put two properties on every message it pulled, so properties that the store took may be too long
here; the consumer then finds none, takes their bytes for the next record, and goes on behind
messages it never got.
-/

namespace CloudMQ.FilterForward

open CloudMQ.Buffer CloudMQ.Utf8 CloudMQ.Strings CloudMQ.Message CloudMQ.Record CloudMQ.Properties
open CloudMQ.MessageDecoder CloudMQ.SendMessageBack CloudMQ.SendBackPaths CloudMQ.ClientDecoder
open CloudMQ.MessageEncoder CloudMQ.SlavePulls

/-! ### The messages that are pulled -/

/-- The two properties the client puts on a message. -/
def withOffsets (minOffset maxOffset : Int64) (msg : MessageExt) : MessageExt :=
  { msg with
    properties := (msg.properties.put PROPERTY_MIN_OFFSET (valueOfLong minOffset)).put
      PROPERTY_MAX_OFFSET (valueOfLong maxOffset) }

/-- `PullAPIWrapper.processPullResult`, for a subscription without tags. -/
def processPullResult (unzip : ByteArr → Option ByteArr) (minOffset maxOffset : Int64)
    (messageBinary : Bytes) : List MessageExt :=
  (decodes unzip true messageBinary).map fun msg =>
    withOffsets minOffset maxOffset msg.toMessageExt

structure PullResult where
  pullStatus : PullStatus
  nextBeginOffset : Int64
  minOffset : Int64
  maxOffset : Int64
  msgFoundList : List MessageExt

/-! ### The records that are written -/

/-- `MessageSysFlag.clearCompressedFlag`. -/
def clearCompressedFlag (flag : Int32) : Int32 := flag &&& ~~~CompressedFlag

/-- A `ByteBuffer`: its capacity, and what was put into it. -/
structure ByteBuffer where
  capacity : ℕ
  filled : Bytes

section Write

variable (order : EntryOrder) (zip : ByteArr → ByteArr) (compressMsgBodyOverHowmuch : Int32)
  (msg : MessageExt)

/-- The body is compressed from a configured length on. -/
def isCompressed : Bool :=
  msg.body.any fun body => decide (compressMsgBodyOverHowmuch.toInt ≤ body.val.length)

/-- The body as it is written; the message has it from then on. -/
def sentBody : Option ByteArr :=
  if isCompressed compressMsgBodyOverHowmuch msg then msg.body.map zip else msg.body

def sentFlag : Int32 :=
  let sysFlag := clearCompressedFlag msg.sysFlag
  if isCompressed compressMsgBodyOverHowmuch msg then sysFlag ||| CompressedFlag else sysFlag

/-- The bytes of the body; a missing body has none. -/
def bodyData : Bytes := ((sentBody zip compressMsgBodyOverHowmuch msg).map Subtype.val).getD []

/-- The `int` sum `msgLen`. -/
def msgLen : Int32 :=
  4 + 4 + 4 + 4 + 4 + 8 + 8 + 4 + 8 + 8 + 8 + 8 + 4 + 8 +
    4 + Int32.ofNat (bodyData zip compressMsgBodyOverHowmuch msg).length +
    1 + Int32.ofNat (topics msg).length +
    2 + Int32.ofNat (propertiesBytes order msg).length +
    0

def putBytes (bornHost storeHost : Bytes) : Bytes :=
  putInt (msgLen order zip compressMsgBodyOverHowmuch msg) ++          -- 1 TOTALSIZE
  putInt MessageMagicCode ++                                           -- 2 MAGICCODE
  putInt (((sentBody zip compressMsgBodyOverHowmuch msg).map fun body =>
    crc32 body.val).getD 0) ++                                         -- 3 BODYCRC
  putInt msg.queueId ++                                                -- 4 QUEUEID
  putInt msg.flag ++                                                   -- 5 FLAG
  putLong msg.queueOffset ++                                           -- 6 QUEUEOFFSET
  putLong msg.commitLogOffset ++                                       -- 7 PHYSICALOFFSET
  putInt (sentFlag compressMsgBodyOverHowmuch msg) ++                  -- 8 SYSFLAG
  putLong msg.bornTimestamp ++                                         -- 9 BORNTIMESTAMP
  bornHost ++                                                          -- 10 BORNHOST
  putLong msg.storeTimestamp ++                                        -- 11 STORETIMESTAMP
  storeHost ++                                                         -- 12 STOREHOSTADDRESS
  putInt msg.reconsumeTimes ++                                         -- 13 RECONSUMETIMES
  putLong msg.preparedTransactionOffset ++                             -- 14 Prepared Transaction
  putInt (Int32.ofNat (bodyData zip compressMsgBodyOverHowmuch msg).length) ++  -- 15 BODY
  bodyData zip compressMsgBodyOverHowmuch msg ++
  [UInt8.ofNat (topics msg).length] ++                                 -- 16 TOPIC
  topics msg ++
  putShort (propertiesBytes order msg).length ++                       -- 17 PROPERTIES
  propertiesBytes order msg

/-- `messageToByteBuffer`; `none` is an exception. A buffer has no negative capacity, and nothing
is put behind its end. -/
def messageToByteBuffer : Option ByteBuffer :=
  match SocketAddress2ByteBuffer msg.bornHost, SocketAddress2ByteBuffer msg.storeHost with
  | some bornHost, some storeHost =>
    let msgLen := msgLen order zip compressMsgBodyOverHowmuch msg
    let bytes := putBytes order zip compressMsgBodyOverHowmuch msg bornHost storeHost
    if msgLen.toInt < 0 then none
    else if msgLen.toInt < bytes.length then none
    else some ⟨msgLen.toInt.toNat, bytes⟩
  | _, _ => none

end Write

/-! ### The answer -/

/-- The sum of the capacities, an `int`. A message without a buffer is only logged. -/
def bodyTotalSize (msgBufferList : List (Option ByteBuffer)) : Int32 :=
  (msgBufferList.filterMap id).foldl (fun size bb => size + Int32.ofNat bb.capacity) 0

/-- The buffers, one after the other into a body of `size` bytes. A missing buffer is an exception
now, and so is one for which there is no room. -/
def putAll (size : ℕ) : List (Option ByteBuffer) → Bytes → Option Bytes
  | [], body => some body
  | none :: _, _ => none
  | some bb :: rest, body =>
    if body.length + bb.filled.length ≤ size then putAll size rest (body ++ bb.filled) else none

/-- The body that `returnResponse` sets; `none` is an exception. What was not put is zero. -/
def returnResponse (msgBufferList : List (Option ByteBuffer)) : Option Bytes :=
  let size := bodyTotalSize msgBufferList
  if size.toInt < 0 then none
  else (putAll size.toInt.toNat msgBufferList []).map fun body =>
    body ++ List.replicate (size.toInt.toNat - body.length) 0

/-- A filter class; `none` is an exception. -/
abbrev MessageFilter := MessageExt → Option Bool

/-- The messages that match, up to the first exception. -/
def msgListOK (messageFilter : MessageFilter) : List MessageExt → Option (List MessageExt)
  | [] => some []
  | msg :: rest =>
    match messageFilter msg with
    | none => none
    | some isMatched => (msgListOK messageFilter rest).map fun msgs =>
        if isMatched then msg :: msgs else msgs

/-- The answer to the consumer, without its remark. -/
structure Response where
  code : SlavePulls.ResponseCode
  suggestWhichBrokerId : Int64 := 0
  nextBeginOffset : Int64 := 0
  minOffset : Int64 := 0
  maxOffset : Int64 := 0
  body : Option Bytes := none

section Forward

variable (order : EntryOrder) (zip : ByteArr → ByteArr) (compressMsgBodyOverHowmuch : Int32)

/-- The callback's `onSuccess`. -/
def onSuccess (messageFilter : MessageFilter) (pullResult : PullResult) : Response :=
  let answer := fun code body => (
    { code, body
      nextBeginOffset := pullResult.nextBeginOffset
      minOffset := pullResult.minOffset
      maxOffset := pullResult.maxOffset } : Response)
  match pullResult.pullStatus with
  | .FOUND =>
    match msgListOK messageFilter pullResult.msgFoundList with
    | none => answer .SYSTEM_ERROR none
    | some [] => answer .PULL_RETRY_IMMEDIATELY none
    | some msgs =>
      match returnResponse
          (msgs.map (messageToByteBuffer order zip compressMsgBodyOverHowmuch)) with
      | none => answer .SYSTEM_ERROR none
      | some body => answer .SUCCESS (some body)
  | .NO_MATCHED_MSG => answer .PULL_RETRY_IMMEDIATELY none
  | .NO_NEW_MSG => answer .PULL_NOT_FOUND none
  | .OFFSET_ILLEGAL => answer .PULL_OFFSET_MOVED none

/-- `pullMessageForward`. `findFilterClass` is what is registered for group and topic, a class or
none yet; `pull` is what the broker answers, or an exception. -/
def pullMessageForward (findFilterClass : Option (Option MessageFilter))
    (pull : Except Unit PullResult) : Response :=
  match findFilterClass with
  | none => { code := .SYSTEM_ERROR }
  | some none => { code := .SYSTEM_ERROR }
  | some (some messageFilter) =>
    match pull with
    | .error _ => { code := .SYSTEM_ERROR }
    | .ok pullResult => onSuccess order zip compressMsgBodyOverHowmuch messageFilter pullResult

end Forward

/-! ### One record -/

/-- A message of four-byte hosts, with a topic that fits and properties that are found again. -/
structure Pulled (msg : MessageExt) : Prop where
  topic : (topics msg).length ≤ 127
  bornHost : IPv4Host msg.bornHost
  storeHost : IPv4Host msg.storeHost
  properties : CleanProps msg.properties

section Record

variable (order : EntryOrder) (zip : ByteArr → ByteArr) {unzip : ByteArr → Option ByteArr}
  (howmuch : Int32) {m : MessageExt}

variable (m) in
/-- The message with the fields that are computed anew. -/
def written : MessageExt :=
  { m with
    storeSize := msgLen order zip howmuch m
    bodyCRC := ((sentBody zip howmuch m).map fun body => crc32 body.val).getD 0
    sysFlag := sentFlag howmuch m }

variable (m) in
def recordBytes : Bytes :=
  headBytes (written order zip howmuch m) ++
    (putInt (Int32.ofNat (bodyData zip howmuch m).length) ++
      (bodyData zip howmuch m ++ tailBytes order m))

variable (m) in
def recordSize : ℕ :=
  91 + (bodyData zip howmuch m).length + (topics m).length + (propertiesBytes order m).length

lemma msgLen_eq : msgLen order zip howmuch m = Int32.ofNat (recordSize order zip howmuch m) := by
  rw [msgLen, recordSize]
  simp only [Int32.ofNat_add]
  have h91 : (4 + 4 + 4 + 4 + 4 + 8 + 8 + 4 + 8 + 8 + 8 + 8 + 4 + 8 + 4 + 1 + 2 : Int32) =
    Int32.ofNat 91 := by decide
  rw [← h91]
  grind

lemma putBytes_eq (hm : Pulled m) {bornHost storeHost : Bytes}
    (hb : SocketAddress2ByteBuffer m.bornHost = some bornHost)
    (hs : SocketAddress2ByteBuffer m.storeHost = some storeHost) :
    putBytes order zip howmuch m bornHost storeHost = recordBytes order zip howmuch m := by
  rw [socketBytes_eq hm.bornHost, Option.some.injEq] at hb
  rw [socketBytes_eq hm.storeHost, Option.some.injEq] at hs
  subst hb hs
  unfold putBytes recordBytes headBytes tailBytes written
  simp only [List.append_assoc]

lemma length_recordBytes (hm : Pulled m) :
    (recordBytes order zip howmuch m).length = recordSize order zip howmuch m := by
  have hborn := length_hostBytes (socketBytes_eq hm.bornHost)
  have hstore := length_hostBytes (socketBytes_eq hm.storeHost)
  rw [recordBytes, headBytes, tailBytes, recordSize, written]
  simp only [List.length_append, length_putInt, length_putLong, length_putShort,
    List.length_singleton] at hborn hstore ⊢
  omega

/-- **A buffer is filled to its end**, unless its size is no `int`. -/
lemma messageToByteBuffer_eq (hm : Pulled m) : messageToByteBuffer order zip howmuch m =
    if recordSize order zip howmuch m < 2 ^ 31 then
      some ⟨recordSize order zip howmuch m, recordBytes order zip howmuch m⟩
    else none := by
  have hlen := length_recordBytes order zip howmuch hm
  rw [messageToByteBuffer, socketBytes_eq hm.bornHost, socketBytes_eq hm.storeHost]
  dsimp only
  rw [putBytes_eq order zip howmuch hm (socketBytes_eq hm.bornHost) (socketBytes_eq hm.storeHost),
    msgLen_eq, hlen]
  by_cases hsize : recordSize order zip howmuch m < 2 ^ 31
  · rw [Int32.toInt_ofNat_of_lt hsize, if_neg (by omega), if_neg (by omega), if_pos hsize,
      Int.toNat_natCast]
  · have hlt := (Int32.ofNat (recordSize order zip howmuch m)).toInt_lt
    rw [if_neg hsize]
    split_ifs
    · rfl
    · rfl
    · omega

/-! ### Reading a record -/

/-- The flag says whether the body was compressed here, whatever it said before. -/
lemma sentFlag_iff : sentFlag howmuch m &&& CompressedFlag = CompressedFlag ↔
    isCompressed howmuch m = true := by
  have hset : ∀ flag : Int32, (flag ||| CompressedFlag) &&& CompressedFlag = CompressedFlag := by
    intro flag
    refine Int32.toBitVec_inj.1 (BitVec.eq_of_getElem_eq fun i hi => ?_)
    simpa using fun h => .inr h
  have hclear : ∀ flag : Int32, clearCompressedFlag flag &&& CompressedFlag = 0 := by
    intro flag
    rw [clearCompressedFlag, Int32.and_assoc, Int32.not_and_self, Int32.and_zero]
  rw [sentFlag]
  split_ifs with hzip
  · exact iff_of_true (hset _) hzip
  · rw [hclear]
    exact iff_of_false (by decide) hzip

lemma length_bodyData_lt : (bodyData zip howmuch m).length < 2 ^ 31 := by
  rw [bodyData]
  cases sentBody zip howmuch m with
  | none => exact Nat.two_pow_pos 31
  | some body => exact body.property

/-- The body comes back where a byte of it was sent. -/
lemma decodeBodyWith_sent (hzip : ∀ b, unzip (zip b) = some b) (r : Bytes) :
    (decodeBodyWith unzip true true (sentFlag howmuch m)).run
        (putInt (Int32.ofNat (bodyData zip howmuch m).length) ++ (bodyData zip howmuch m ++ r)) =
      some (if bodyData zip howmuch m = [] then none else m.body, r) := by
  have hto : (Int32.ofNat (bodyData zip howmuch m).length).toInt =
      (bodyData zip howmuch m).length := Int32.toInt_ofNat_of_lt (length_bodyData_lt zip howmuch)
  rw [decodeBodyWith, Reader.run_bind_of_some (getInt_putInt _ _), hto]
  by_cases hnil : bodyData zip howmuch m = []
  · simp [hnil]
  have hpos : (0 : ℤ) < (bodyData zip howmuch m).length := by
    have := List.length_pos_of_ne_nil hnil
    omega
  obtain ⟨body, hbody⟩ : ∃ body, m.body = some body := by
    refine Option.ne_none_iff_exists'.mp fun hnone => hnil ?_
    rw [bodyData, sentBody, hnone]
    simp
  rw [if_pos hpos, Int.toNat_natCast, Reader.run_bind_of_some (getBytes_append rfl _), if_pos rfl,
    if_neg hnil]
  by_cases hcomp : isCompressed howmuch m = true
  · have hdata : bodyData zip howmuch m = (zip body).val := by
      rw [bodyData, sentBody, if_pos hcomp, hbody]
      rfl
    rw [if_pos ⟨rfl, (sentFlag_iff howmuch).mpr hcomp⟩, hdata, toByteArr_val, Option.bind_some, hzip,
      Reader.run_bind_of_some (Reader.run_ofOption_some _ _), Reader.run_pure, hbody]
  · have hdata : bodyData zip howmuch m = body.val := by
      rw [bodyData, sentBody, if_neg hcomp, hbody]
      rfl
    rw [if_neg fun h => hcomp ((sentFlag_iff howmuch).mp h.2), Reader.run_pure, hdata,
      toByteArr_val, hbody]

/-- **Properties that are too long are lost.** Fewer are read than were written. -/
lemma decodeProperties_overlong {s : Text} (hlong : 32767 < (utf8Encode s).length) (r : Bytes) :
    ∃ properties rest, decodeProperties.run
        (putShort (utf8Encode s).length ++ (utf8Encode s ++ r)) = some (properties, rest) ∧
      propsSize properties < (utf8Encode s).length := by
  generalize hn : (utf8Encode s).length = n at hlong ⊢
  generalize hx : (BitVec.ofNat 16 n).toInt = x
  rw [decodeProperties]
  by_cases hpos : 0 < x
  · have hle : x.toNat + 65536 ≤ n := by
      rw [BitVec.toInt_eq_toNat_cond, BitVec.toNat_ofNat] at hx
      split at hx <;> omega
    obtain ⟨s₁, s₂, p, -, htake, hp⟩ := take_utf8Encode s x.toNat
    have hread : (getArray x).run (utf8Encode s ++ r) =
        some ((utf8Encode s).take x.toNat, (utf8Encode s).drop x.toNat ++ r) := by
      have h := getArray_append (a := (utf8Encode s).take x.toNat) (n := x)
        (by rw [List.length_take]; omega) ((utf8Encode s).drop x.toNat ++ r)
      rwa [← List.append_assoc, List.take_append_drop] at h
    refine ⟨string2messageProperties (utf8Decode ((utf8Encode s).take x.toNat)),
      (utf8Encode s).drop x.toNat ++ r, ?_, ?_⟩
    · rw [Reader.run_bind_of_some (getShort_putShort _ _), hx, if_pos hpos,
        Reader.run_bind_of_some hread, Reader.run_pure]
    · have hsize := propsSize_string2messageProperties_le
        (utf8Decode ((utf8Encode s).take x.toNat))
      have hlen := congrArg List.length htake
      have hp' := length_utf8Encode_le (utf8Decode p)
      have hdec := length_utf8Decode_le p
      rw [htake, utf8Decode_encode_append, pieceSize, utf8Encode_append,
        List.length_append] at hsize
      rw [List.length_take, List.length_append] at hlen
      rw [htake, utf8Decode_encode_append]
      omega
  · refine ⟨Props.empty, utf8Encode s ++ r, ?_, ?_⟩
    · rw [Reader.run_bind_of_some (getShort_putShort _ _), hx, if_neg hpos, Reader.run_pure]
    · change 0 < n
      omega

/-- What the consumer has of a message that was forwarded. -/
structure Forwarded (m d : MessageExt) : Prop where
  topic : d.topic = m.topic
  queueId : d.queueId = m.queueId
  flag : d.flag = m.flag
  queueOffset : d.queueOffset = m.queueOffset
  commitLogOffset : d.commitLogOffset = m.commitLogOffset
  bornTimestamp : d.bornTimestamp = m.bornTimestamp
  bornHost : d.bornHost = m.bornHost
  storeTimestamp : d.storeTimestamp = m.storeTimestamp
  storeHost : d.storeHost = m.storeHost
  reconsumeTimes : d.reconsumeTimes = m.reconsumeTimes
  preparedTransactionOffset : d.preparedTransactionOffset = m.preparedTransactionOffset
  body : d.body = m.body
  properties : ∀ name, d.properties.get name = m.properties.get name

/-- The length of the properties is a `short`, and of a body at least one byte is sent. -/
structure Readable (order : EntryOrder) (zip : ByteArr → ByteArr) (howmuch : Int32)
    (m : MessageExt) : Prop where
  properties : (propertiesBytes order m).length ≤ 32767
  body : ∀ body, m.body = some body → bodyData zip howmuch m ≠ []

/-- The properties are read to their end, and come back, where their length is a `short`. -/
lemma decodeProperties_sent (hclean : CleanProps m.properties) (r : Bytes) :
    ∃ properties rest, decodeProperties.run
        (putShort (propertiesBytes order m).length ++ (propertiesBytes order m ++ r)) =
          some (properties, rest) ∧
      ((propertiesBytes order m).length ≤ 32767 → rest = r) ∧
      ((∀ name, properties.get name = m.properties.get name) ↔
        (propertiesBytes order m).length ≤ 32767) := by
  by_cases hfit : (propertiesBytes order m).length ≤ 32767
  · exact ⟨_, r, decodeProperties_utf8Encode hfit r, fun _ => rfl,
      iff_of_true (get_roundTrip hclean) hfit⟩
  · obtain ⟨properties, rest, hrun, hsize⟩ := decodeProperties_overlong (not_le.mp hfit) r
    refine ⟨properties, rest, hrun, fun h => absurd h hfit, iff_of_false (fun hget => ?_) hfit⟩
    rw [propsSize_eq_of_get hget, length_messageProperties2String] at hsize
    exact absurd hsize (lt_irrefl _)

/-- **A record, read by the consumer.** -/
lemma decodeWith_recordBytes (hzip : ∀ b, unzip (zip b) = some b) (hm : Pulled m) (r : Bytes) :
    ∃ d rest, decodeWith unzip true true (recordBytes order zip howmuch m ++ r) =
        (some d, rest) ∧
      (Readable order zip howmuch m → rest = r) ∧
      (Forwarded m d.toMessageExt ↔ Readable order zip howmuch m) := by
  obtain ⟨properties, rest, hprops, hrest, hget⟩ :=
    decodeProperties_sent order hm.properties r
  have hrun := readRest_run (m := written order zip howmuch m) hm.topic
    (decodeBodyWith_sent zip howmuch hzip (tailBytes order m ++ r)) hprops
  generalize hd : ({ written order zip howmuch m with
    body := if bodyData zip howmuch m = [] then none else m.body
    properties } : MessageExt) = d at hrun
  refine ⟨⟨d, getMsgId d⟩, rest, ?_, fun h => hrest h.properties, ?_⟩
  · rw [decodeWith, recordBytes]
    simp only [List.append_assoc]
    rw [readMessageExtWith_headBytes (m := written order zip howmuch m) hm.bornHost hm.storeHost,
      hrun]
  · subst hd
    constructor
    · intro h
      refine ⟨hget.mp h.properties, fun body hbody hnil => ?_⟩
      have hlost := h.body
      rw [if_pos hnil, hbody] at hlost
      cases hlost
    · intro h
      have hbody : (if bodyData zip howmuch m = [] then none else m.body) = m.body := by
        split_ifs with hnil
        · cases hb : m.body with
          | none => rfl
          | some body => exact absurd hnil (h.body body hb)
        · rfl
      exact ⟨rfl, rfl, rfl, rfl, rfl, rfl, rfl, rfl, rfl, rfl, rfl, hbody, hget.mpr h.properties⟩

end Record

/-! ### All records -/

section Body

variable (order : EntryOrder) (zip : ByteArr → ByteArr) {unzip : ByteArr → Option ByteArr}
  (howmuch : Int32) {msgs : List MessageExt} {msgBufferList : List (Option ByteBuffer)}

/-- **The consumer has the messages exactly when each of them can be read.** -/
lemma forall₂_decodesFrom_iff (hzip : ∀ b, unzip (zip b) = some b) (h : ∀ m ∈ msgs, Pulled m)
    {fuel : ℕ} (hfuel : msgs.length ≤ fuel) :
    List.Forall₂ (fun m (d : ClientDecoder.ClientMessage) => Forwarded m d.toMessageExt) msgs
        (decodesFrom unzip true fuel (msgs.flatMap (recordBytes order zip howmuch))) ↔
      ∀ m ∈ msgs, Readable order zip howmuch m := by
  induction msgs generalizing fuel with
  | nil =>
    have hnil : decodesFrom unzip true fuel [] = [] := by
      cases fuel with
      | zero => rfl
      | succ fuel => rfl
    rw [List.flatMap_nil, hnil]
    simp
  | cons m msgs ih =>
    obtain ⟨hm, hmsgs⟩ := List.forall_mem_cons.mp h
    cases fuel with
    | zero => exact absurd hfuel (by simp)
    | succ fuel =>
      have hpos : recordBytes order zip howmuch m ++
          msgs.flatMap (recordBytes order zip howmuch) ≠ [] := by
        have hlen := length_recordBytes order zip howmuch hm
        refine List.append_ne_nil_of_left_ne_nil (fun hnil => ?_) _
        rw [hnil, List.length_nil, recordSize] at hlen
        omega
      obtain ⟨d, rest, hread, hrest, hforward⟩ := decodeWith_recordBytes order zip howmuch hzip hm
        (msgs.flatMap (recordBytes order zip howmuch))
      rw [List.flatMap_cons, decodesFrom, if_neg hpos, hread, List.forall₂_cons,
        List.forall_mem_cons, hforward]
      refine and_congr_right fun hreadable => ?_
      rw [hrest hreadable]
      exact ih hmsgs (by rw [List.length_cons] at hfuel; omega)

lemma length_flatMap_recordBytes (h : ∀ m ∈ msgs, Pulled m) :
    (msgs.flatMap (recordBytes order zip howmuch)).length =
      (msgs.map (recordSize order zip howmuch)).sum := by
  rw [List.length_flatMap]
  exact congrArg List.sum (List.map_congr_left fun m hm =>
    length_recordBytes order zip howmuch (h m hm))

lemma length_le_sum : msgs.length ≤ (msgs.map (recordSize order zip howmuch)).sum := by
  induction msgs with
  | nil => exact le_rfl
  | cons m msgs ih =>
    rw [List.map_cons, List.sum_cons, List.length_cons, recordSize]
    omega

lemma forall₂_decodes_iff (hzip : ∀ b, unzip (zip b) = some b) (h : ∀ m ∈ msgs, Pulled m) :
    List.Forall₂ (fun m (d : ClientDecoder.ClientMessage) => Forwarded m d.toMessageExt) msgs
        (decodes unzip true (msgs.flatMap (recordBytes order zip howmuch))) ↔
      ∀ m ∈ msgs, Readable order zip howmuch m :=
  forall₂_decodesFrom_iff order zip howmuch hzip h
    ((length_le_sum order zip howmuch).trans (length_flatMap_recordBytes order zip howmuch h).ge)

/-! ### The body -/

lemma bodyTotalSize_map (bs : List ByteBuffer) :
    bodyTotalSize (bs.map some) = Int32.ofNat (bs.map ByteBuffer.capacity).sum := by
  have hsum : ∀ (bs : List ByteBuffer) (n : ℕ),
      bs.foldl (fun size bb => size + Int32.ofNat bb.capacity) (Int32.ofNat n) =
        Int32.ofNat (n + (bs.map ByteBuffer.capacity).sum) := by
    intro bs
    induction bs with
    | nil => exact fun n => rfl
    | cons b bs ih =>
      intro n
      rw [List.foldl_cons, ← Int32.ofNat_add, ih, List.map_cons, List.sum_cons, Nat.add_assoc]
  have h := hsum bs 0
  rw [Nat.zero_add] at h
  rw [bodyTotalSize, List.filterMap_map]
  simpa using h

lemma putAll_map {size : ℕ} {bs : List ByteBuffer} {body : Bytes}
    (h : body.length + (bs.flatMap ByteBuffer.filled).length ≤ size) :
    putAll size (bs.map some) body = some (body ++ bs.flatMap ByteBuffer.filled) := by
  induction bs generalizing body with
  | nil => simp [putAll]
  | cons b bs ih =>
    rw [List.flatMap_cons, List.length_append] at h
    rw [List.map_cons, putAll, if_pos (by omega), ih (by rw [List.length_append]; omega),
      List.flatMap_cons, List.append_assoc]

/-- Every buffer is there, and there is room for all. -/
lemma putAll_eq_some {size : ℕ} {body full : Bytes} (h : putAll size msgBufferList body = some full)
    (hle : body.length ≤ size) :
    ∃ bs : List ByteBuffer, msgBufferList = bs.map some ∧
      full = body ++ bs.flatMap ByteBuffer.filled ∧ full.length ≤ size := by
  induction msgBufferList generalizing body with
  | nil =>
    rw [putAll, Option.some.injEq] at h
    exact ⟨[], rfl, by simp [h], h ▸ hle⟩
  | cons b rest ih =>
    cases b with
    | none => cases h
    | some b =>
      rw [putAll] at h
      split_ifs at h with hroom
      obtain ⟨bs, hbs, hfull, hlen⟩ := ih h (by rw [List.length_append]; exact hroom)
      exact ⟨b :: bs, by rw [hbs]; rfl, by rw [hfull, List.flatMap_cons, List.append_assoc], hlen⟩

def bufferOf (m : MessageExt) : ByteBuffer :=
  ⟨recordSize order zip howmuch m, recordBytes order zip howmuch m⟩

/-- **The body is the records**, unless they do not fit into an array. -/
lemma returnResponse_eq (h : ∀ m ∈ msgs, Pulled m) :
    returnResponse (msgs.map (messageToByteBuffer order zip howmuch)) =
      if (msgs.map (recordSize order zip howmuch)).sum < 2 ^ 31 then
        some (msgs.flatMap (recordBytes order zip howmuch))
      else none := by
  have hfilled : (msgs.map (bufferOf order zip howmuch)).flatMap ByteBuffer.filled =
      msgs.flatMap (recordBytes order zip howmuch) := by
    rw [List.flatMap_map]
    rfl
  have hcapacity : (msgs.map (bufferOf order zip howmuch)).map ByteBuffer.capacity =
      msgs.map (recordSize order zip howmuch) := by
    rw [List.map_map]
    rfl
  have hlen := length_flatMap_recordBytes order zip howmuch h
  split_ifs with hsize
  · have hbuffers : msgs.map (messageToByteBuffer order zip howmuch) =
        (msgs.map (bufferOf order zip howmuch)).map some := by
      rw [List.map_map]
      refine List.map_congr_left fun m hm => ?_
      have hle := List.le_sum_of_mem (List.mem_map_of_mem (f := recordSize order zip howmuch) hm)
      rw [messageToByteBuffer_eq order zip howmuch (h m hm), if_pos (by omega)]
      rfl
    rw [returnResponse, hbuffers, bodyTotalSize_map, hcapacity]
    rw [Int32.toInt_ofNat_of_lt hsize, if_neg (by omega), Int.toNat_natCast,
      putAll_map (by rw [hfilled, hlen]; simp), hfilled]
    simp [hlen]
  · rw [returnResponse]
    split_ifs with hneg
    · rfl
    rw [Option.map_eq_none_iff, Option.eq_none_iff_forall_ne_some]
    intro full hfull
    obtain ⟨bs, hbs, hbody, hroom⟩ := putAll_eq_some hfull (Nat.zero_le _)
    have hlt := (bodyTotalSize (msgs.map (messageToByteBuffer order zip howmuch))).toInt_lt
    have hsame : bs = msgs.map (bufferOf order zip howmuch) := by
      refine List.map_injective_iff.mpr (Option.some_injective _) ?_
      rw [← hbs, List.map_map]
      refine List.map_congr_left fun m hm => ?_
      obtain ⟨b, -, hb⟩ := List.mem_map.mp (hbs ▸ List.mem_map_of_mem hm)
      rw [messageToByteBuffer_eq order zip howmuch (h m hm)] at hb ⊢
      split_ifs at hb ⊢
      rfl
    rw [hbody, hsame, hfilled, List.nil_append, hlen] at hroom
    omega

end Body

/-! ### Transparency -/

def matching (messageFilter : MessageFilter) (msgs : List MessageExt) : List MessageExt :=
  msgs.filter fun m => messageFilter m = some true

lemma msgListOK_of_throw {messageFilter : MessageFilter} {msgs : List MessageExt}
    (h : ∃ m ∈ msgs, messageFilter m = none) : msgListOK messageFilter msgs = none := by
  induction msgs with
  | nil => simp at h
  | cons m msgs ih =>
    rw [msgListOK]
    cases hm : messageFilter m with
    | none => rfl
    | some isMatched =>
      have hmsgs : ∃ m ∈ msgs, messageFilter m = none := by simpa [hm] using h
      simp only [ih hmsgs, Option.map_none]

lemma msgListOK_eq {messageFilter : MessageFilter} {msgs : List MessageExt}
    (h : ∀ m ∈ msgs, messageFilter m ≠ none) :
    msgListOK messageFilter msgs = some (matching messageFilter msgs) := by
  induction msgs with
  | nil => rfl
  | cons m msgs ih =>
    obtain ⟨hm, hmsgs⟩ := List.forall_mem_cons.mp h
    obtain ⟨isMatched, hsome⟩ := Option.ne_none_iff_exists'.mp hm
    rw [msgListOK, hsome]
    simp only [ih hmsgs, Option.map_some, matching]
    cases isMatched with
    | true => rw [if_pos rfl, List.filter_cons_of_pos (by simp [hsome])]
    | false => rw [if_neg (by simp), List.filter_cons_of_neg (by simp [hsome])]

/-- The answer to a pull that found these messages: the matching ones, all of them and in order, or
none because none matches, or an error. -/
def Transparent (unzip : ByteArr → Option ByteArr) (messageFilter : MessageFilter)
    (msgFoundList : List MessageExt) (r : Response) : Prop :=
  (r.code = .SUCCESS ∧ ∃ body, r.body = some body ∧
    List.Forall₂ (fun m (d : ClientDecoder.ClientMessage) => Forwarded m d.toMessageExt)
      (matching messageFilter msgFoundList) (decodes unzip true body)) ∨
  (r.code = .PULL_RETRY_IMMEDIATELY ∧ matching messageFilter msgFoundList = []) ∨
  r.code = .SYSTEM_ERROR

section Transparency

variable (order : EntryOrder) (zip : ByteArr → ByteArr) {unzip : ByteArr → Option ByteArr}
  (howmuch : Int32) {messageFilter : MessageFilter} {pullResult : PullResult}

/-- Matching messages are sent in one body, if they fit into one. -/
lemma onSuccess_of_matching (hfound : pullResult.pullStatus = .FOUND)
    (hmsgs : ∀ m ∈ pullResult.msgFoundList, Pulled m)
    (hall : ∀ m ∈ pullResult.msgFoundList, messageFilter m ≠ none)
    (hne : matching messageFilter pullResult.msgFoundList ≠ []) :
    onSuccess order zip howmuch messageFilter pullResult =
      { code := if ((matching messageFilter pullResult.msgFoundList).map
          (recordSize order zip howmuch)).sum < 2 ^ 31 then .SUCCESS else .SYSTEM_ERROR
        nextBeginOffset := pullResult.nextBeginOffset
        minOffset := pullResult.minOffset
        maxOffset := pullResult.maxOffset
        body := if ((matching messageFilter pullResult.msgFoundList).map
            (recordSize order zip howmuch)).sum < 2 ^ 31 then
          some ((matching messageFilter pullResult.msgFoundList).flatMap
            (recordBytes order zip howmuch))
          else none } := by
  have hsub : ∀ m ∈ matching messageFilter pullResult.msgFoundList, Pulled m := fun m hm =>
    hmsgs m (List.mem_of_mem_filter hm)
  rw [onSuccess, hfound, msgListOK_eq hall]
  generalize matching messageFilter pullResult.msgFoundList = msgs at hne hsub
  obtain ⟨m, rest, rfl⟩ := List.exists_cons_of_ne_nil hne
  simp only [returnResponse_eq order zip howmuch hsub]
  split_ifs <;> rfl

variable {order zip howmuch} in
/-- **When forwarding is transparent.** -/
theorem transparent_iff (hzip : ∀ b, unzip (zip b) = some b)
    (hfound : pullResult.pullStatus = .FOUND)
    (hmsgs : ∀ m ∈ pullResult.msgFoundList, Pulled m) :
    Transparent unzip messageFilter pullResult.msgFoundList
        (pullMessageForward order zip howmuch (some (some messageFilter)) (.ok pullResult)) ↔
      (∃ m ∈ pullResult.msgFoundList, messageFilter m = none) ∨
      2 ^ 31 ≤ ((matching messageFilter pullResult.msgFoundList).map
        (recordSize order zip howmuch)).sum ∨
      ∀ m ∈ matching messageFilter pullResult.msgFoundList, Readable order zip howmuch m := by
  rw [pullMessageForward]
  by_cases hthrow : ∃ m ∈ pullResult.msgFoundList, messageFilter m = none
  · have herror : (onSuccess order zip howmuch messageFilter pullResult).code = .SYSTEM_ERROR := by
      rw [onSuccess, hfound, msgListOK_of_throw hthrow]
    exact iff_of_true (.inr (.inr herror)) (.inl hthrow)
  have hall : ∀ m ∈ pullResult.msgFoundList, messageFilter m ≠ none := fun m hm hnone =>
    hthrow ⟨m, hm, hnone⟩
  by_cases hnil : matching messageFilter pullResult.msgFoundList = []
  · have hretry : (onSuccess order zip howmuch messageFilter pullResult).code =
        .PULL_RETRY_IMMEDIATELY := by
      rw [onSuccess, hfound, msgListOK_eq hall, hnil]
    exact iff_of_true (.inr (.inl ⟨hretry, hnil⟩)) (.inr (.inr (by simp [hnil])))
  rw [onSuccess_of_matching order zip howmuch hfound hmsgs hall hnil, Transparent,
    or_iff_right hthrow]
  have hsub : ∀ m ∈ matching messageFilter pullResult.msgFoundList, Pulled m := fun m hm =>
    hmsgs m (List.mem_of_mem_filter hm)
  by_cases hsize : ((matching messageFilter pullResult.msgFoundList).map
      (recordSize order zip howmuch)).sum < 2 ^ 31
  · rw [or_iff_right (not_le.mpr hsize), ← forall₂_decodes_iff order zip howmuch hzip hsub]
    simp only [if_pos hsize]
    constructor
    · rintro (⟨-, body, hbody, hread⟩ | ⟨hcode, -⟩ | hcode)
      · rwa [Option.some.inj hbody]
      · cases hcode
      · cases hcode
    · exact fun hread => .inl ⟨trivial, _, rfl, hread⟩
  · exact iff_of_true (.inr (.inr (if_neg hsize))) (.inl (not_lt.mp hsize))

lemma ipv4Host_of_decodeHost {host : InetSocketAddress} {bs rest : Bytes}
    (h : decodeHost.run bs = some (host, rest)) : IPv4Host host := by
  obtain ⟨address, mid, -, h⟩ := Reader.run_bind_eq_some h
  obtain ⟨port, mid', -, h⟩ := Reader.run_bind_eq_some h
  split at h
  · next a b c d _ =>
    split_ifs at h with hport
    · rw [Reader.run_pure, Option.some.injEq, Prod.mk.injEq] at h
      rw [← h.1]
      exact ⟨a, b, c, d, rfl, hport⟩
    · cases h
  · cases h

/-- A record that is decoded has hosts of four bytes and properties that are found again. -/
lemma of_readMessageExtWith {m : MessageExt} {bs rest : Bytes}
    (h : (readMessageExtWith unzip true true).run bs = some (m, rest)) :
    IPv4Host m.bornHost ∧ IPv4Host m.storeHost ∧ CleanProps m.properties := by
  -- nine fields stand in front of the host the message was born at
  iterate 9 obtain ⟨_, _, -, h⟩ := Reader.run_bind_eq_some h
  obtain ⟨bornHost, _, hborn, h⟩ := Reader.run_bind_eq_some h
  obtain ⟨storeTimestamp, _, -, h⟩ := Reader.run_bind_eq_some h
  obtain ⟨storeHost, _, hstore, h⟩ := Reader.run_bind_eq_some h
  iterate 4 obtain ⟨_, _, -, h⟩ := Reader.run_bind_eq_some h
  obtain ⟨properties, _, hproperties, h⟩ := Reader.run_bind_eq_some h
  rw [Reader.run_pure, Option.some.injEq, Prod.mk.injEq] at h
  rw [← h.1]
  exact ⟨ipv4Host_of_decodeHost hborn, ipv4Host_of_decodeHost hstore,
    RetryChain.clean_of_decodeProperties hproperties⟩

lemma of_mem_decodesFrom {fuel : ℕ} {bs : Bytes} {d : ClientDecoder.ClientMessage}
    (h : d ∈ decodesFrom unzip true fuel bs) :
    IPv4Host d.bornHost ∧ IPv4Host d.storeHost ∧ CleanProps d.properties := by
  induction fuel generalizing bs with
  | zero => exact absurd h List.not_mem_nil
  | succ fuel ih =>
    rw [decodesFrom] at h
    split_ifs at h
    · exact absurd h List.not_mem_nil
    · cases hread : (readMessageExtWith unzip true true).run bs with
      | none =>
        rw [decodeWith, hread] at h
        exact absurd h List.not_mem_nil
      | some r =>
        rw [decodeWith, hread] at h
        rcases List.mem_cons.mp h with rfl | h
        · exact of_readMessageExtWith hread
        · exact ih h

/-- **What the client has pulled** is in the domain, if its topic fits. -/
theorem pulled_of_processPullResult {minOffset maxOffset : Int64} {messageBinary : Bytes}
    {m : MessageExt} (h : m ∈ processPullResult unzip minOffset maxOffset messageBinary)
    (htopic : (topics m).length ≤ 127) : Pulled m := by
  obtain ⟨d, hd, rfl⟩ := List.mem_map.mp h
  obtain ⟨hborn, hstore, hclean⟩ := of_mem_decodesFrom hd
  exact ⟨htopic, hborn, hstore, (hclean.put (by decide) (clean_valueOfLong minOffset)).put
    (by decide) (clean_valueOfLong maxOffset)⟩

end Transparency

/-! ### A long property -/

/-- A message of the filter server, with a property of so many letters. -/
def lettersOf (n : ℕ) : MessageExt :=
  { lettersMessage 0 with properties := Props.empty.put PROPERTY_KEYS (List.replicate n 'k') }

def found (n : ℕ) : PullResult := ⟨.FOUND, 1, 0, 1, [withOffsets 0 1 (lettersOf n)]⟩

lemma clean_lettersOf {n : ℕ} (hn : n ≠ 0) : CleanProps (lettersOf n).properties := by
  have hsep : ∀ c : Char, c ≠ 'k' → c ∉ List.replicate n 'k' := fun c hc hmem =>
    hc (List.eq_of_mem_replicate hmem)
  refine CleanProps.put (fun _ he => absurd he List.not_mem_nil) (by decide)
    ⟨hsep _ (by decide), hsep _ (by decide), fun hnil => hn ?_⟩
  simpa using hnil

lemma pulled_lettersOf {n : ℕ} (hn : n ≠ 0) : Pulled (withOffsets 0 1 (lettersOf n)) where
  topic := show (utf8Encode "T".toList).length ≤ 127 by decide
  bornHost := ipv4_host
  storeHost := ipv4_host
  properties := ((clean_lettersOf hn).put (by decide) (clean_valueOfLong 0)).put (by decide)
    (clean_valueOfLong 1)

lemma propsSize_lettersOf (n : ℕ) :
    propsSize (withOffsets 0 1 (lettersOf n)).properties = n + 32 := by
  have hletters : (utf8Encode (List.replicate n 'k')).length = n := by
    induction n with
    | zero => rfl
    | succ n ih =>
      rw [List.replicate_succ, ← List.singleton_append, utf8Encode_append, List.length_append, ih,
        Nat.add_comm]
      rfl
  have hentries : (withOffsets 0 1 (lettersOf n)).properties.entries =
      [(PROPERTY_MAX_OFFSET, ['1']), (PROPERTY_MIN_OFFSET, ['0']),
        (PROPERTY_KEYS, List.replicate n 'k')] := rfl
  have hsizes : (entrySize (PROPERTY_MAX_OFFSET, ['1']), entrySize (PROPERTY_MIN_OFFSET, ['0']),
      (utf8Encode PROPERTY_KEYS).length) = (13, 13, 4) := by decide
  simp only [Prod.mk.injEq] at hsizes
  rw [propsSize, hentries, List.map_cons, List.map_cons, List.map_cons, List.sum_cons,
    List.sum_cons, List.sum_cons, hsizes.1, hsizes.2.1, entrySize, hletters, hsizes.2.2]
  simp only [List.map_nil, List.sum_nil]
  omega

lemma length_propertiesBytes (n : ℕ) :
    (propertiesBytes entryOrder (withOffsets 0 1 (lettersOf n))).length = n + 32 := by
  rw [propertiesBytes, length_messageProperties2String, propsSize_lettersOf]

/-- With a short property, the message comes back. -/
theorem transparent_short : Transparent inflate (fun _ => some true) (found 1).msgFoundList
    (pullMessageForward entryOrder deflate 8192 (some (some fun _ => some true))
      (.ok (found 1))) := by
  have hreadable : Readable entryOrder deflate 8192 (withOffsets 0 1 (lettersOf 1)) := by
    refine ⟨?_, fun _ _ => List.cons_ne_nil _ _⟩
    rw [length_propertiesBytes]
    omega
  exact (transparent_iff inflate_deflate rfl
    (List.forall_mem_singleton.mpr (pulled_lettersOf Nat.one_ne_zero))).mpr
      (.inr (.inr (List.forall_mem_singleton.mpr hreadable)))

lemma recordSize_lettersOf (n : ℕ) :
    recordSize entryOrder deflate 8192 (withOffsets 0 1 (lettersOf n)) = n + 156 := by
  have hbody : (bodyData deflate 8192 (withOffsets 0 1 (lettersOf n))).length = 32 := rfl
  have htopic : (topics (withOffsets 0 1 (lettersOf n))).length = 1 := rfl
  rw [recordSize, hbody, htopic, length_propertiesBytes]
  omega

/-- A property that is too long with the two others: the answer says that the message was found,
and the consumer does not have it. -/
lemma not_transparent_lettersOf {n : ℕ} (hlong : 32735 < n) (hlt : n < 2 ^ 30) :
    (pullMessageForward entryOrder deflate 8192 (some (some fun _ => some true))
      (.ok (found n))).code = .SUCCESS ∧
    ¬ Transparent inflate (fun _ => some true) (found n).msgFoundList
      (pullMessageForward entryOrder deflate 8192 (some (some fun _ => some true))
        (.ok (found n))) := by
  have hmsgs : ∀ m ∈ (found n).msgFoundList, Pulled m :=
    List.forall_mem_singleton.mpr (pulled_lettersOf (by omega))
  have hmatch : matching (fun _ => some true) (found n).msgFoundList =
      [withOffsets 0 1 (lettersOf n)] := rfl
  have hsize : ([withOffsets 0 1 (lettersOf n)].map
      (recordSize entryOrder deflate 8192)).sum < 2 ^ 31 := by
    rw [List.map_singleton, List.sum_singleton, recordSize_lettersOf]
    omega
  have hforward := onSuccess_of_matching entryOrder deflate 8192 rfl hmsgs
    (fun _ _ => Option.some_ne_none true) (hmatch ▸ List.cons_ne_nil _ _)
  rw [hmatch, if_pos hsize, if_pos hsize] at hforward
  rw [pullMessageForward, hforward]
  refine ⟨rfl, ?_⟩
  rintro (⟨-, body, hbody, hread⟩ | ⟨hcode, -⟩ | hcode)
  · rw [← Option.some.inj hbody, hmatch] at hread
    have hreadable := (forall₂_decodes_iff entryOrder deflate 8192 inflate_deflate hmsgs).mp hread _
      (List.mem_singleton_self _)
    have hle := hreadable.properties
    rw [length_propertiesBytes] at hle
    omega
  · cases hcode
  · cases hcode

lemma length_stored (n : ℕ) :
    (messageProperties2String entryOrder (lettersOf n).properties).length = n + 6 := by
  simp [messageProperties2String, entryOrder, lettersOf, Props.put, Props.eraseEntries,
    Props.empty, PROPERTY_KEYS]

/-- The property alone is one that the store takes. -/
theorem not_transparent_long : (∀ b, inflate (deflate b) = some b) ∧
    (∀ m ∈ (found 32740).msgFoundList, Pulled m) ∧
    (messageProperties2String entryOrder (lettersOf 32740).properties).length ≤ 32767 ∧
    (pullMessageForward entryOrder deflate 8192 (some (some fun _ => some true))
      (.ok (found 32740))).code = .SUCCESS ∧
    ¬ Transparent inflate (fun _ => some true) (found 32740).msgFoundList
      (pullMessageForward entryOrder deflate 8192 (some (some fun _ => some true))
        (.ok (found 32740))) :=
  ⟨inflate_deflate, List.forall_mem_singleton.mpr (pulled_lettersOf (by decide)),
    (length_stored 32740).trans_le (by decide), not_transparent_lettersOf (by decide) (by decide)⟩

end CloudMQ.FilterForward
