import CloudMQ.SendBackPaths

/-!
The decoder at the consumer: `MessageDecoder.decodes` over a batch of records, with or without
the bodies, and `decodeMessageId` on the identifiers it makes up.

The records are the ones `doAppend` writes. A flagged body is uncompressed on the way; a body
of no bytes comes back as none.
-/

namespace CloudMQ.ClientDecoder

open CloudMQ.Buffer CloudMQ.Utf8 CloudMQ.Strings CloudMQ.Message CloudMQ.Record CloudMQ.Codec
open CloudMQ.Append CloudMQ.MessageDecoder CloudMQ.SendMessageBack CloudMQ.SendBackPaths

/-! ### Message identifiers -/

/-- `"0123456789ABCDEF".indexOf(c)` as a `byte`; a character that is not there gives −1. -/
def charToByte (c : Char) : UInt8 :=
  match "0123456789ABCDEF".toList.idxOf? c with
  | some i => UInt8.ofNat i
  | none => 0xFF

/-- Two characters for each byte; the last one of an odd number is not looked at. -/
def hexPairs : Text → Bytes
  | a :: b :: rest => (charToByte a <<< 4 ||| charToByte b) :: hexPairs rest
  | _ => []

def string2bytes (hexString : Text) : Bytes := hexPairs (hexString.map Char.toUpper)

structure MessageId where
  address : InetSocketAddress
  offset : Int64

/-- `MessageDecoder.decodeMessageId`; `none` is an exception. -/
def decodeMessageId (msgId : Text) : Option MessageId :=
  if msgId.length < 32 then none
  else
    let ip := string2bytes (msgId.take 8)
    let port := string2bytes ((msgId.drop 8).take 8)
    let data := string2bytes ((msgId.drop 16).take 16)
    match ip, getInt.run port, getLong.run data with
    | [a, b, c, d], some (portInt, _), some (offset, _) =>
      if 0 ≤ portInt.toInt ∧ portInt.toInt ≤ 0xFFFF then some ⟨⟨.inet4 a b c d, portInt⟩, offset⟩
      else none
    | _, _, _ => none

/-! ### The decoder -/

/-- A message as the client has it. -/
structure ClientMessage extends MessageExt where
  msgId : Text

section Decode

variable (unzip : ByteArr → Option ByteArr) (readBody deCompressBody : Bool)

/-- The body: read and uncompressed, read, or skipped. -/
def decodeBodyWith (sysFlag : Int32) : Reader (Option ByteArr) := do
  let bodyLen ← getInt
  if 0 < bodyLen.toInt then
    let body ← getBytes bodyLen.toInt.toNat
    if readBody then
      if deCompressBody ∧ sysFlag &&& CompressedFlag = CompressedFlag then
        let body ← Reader.ofOption ((toByteArr body).bind unzip)
        return some body
      else return toByteArr body
    else return none
  else return none

def readMessageExtWith : Reader MessageExt := do
  let storeSize ← getInt
  let _ ← getInt
  let bodyCRC ← getInt
  let queueId ← getInt
  let flag ← getInt
  let queueOffset ← getLong
  let commitLogOffset ← getLong
  let sysFlag ← getInt
  let bornTimestamp ← getLong
  let bornHost ← decodeHost
  let storeTimestamp ← getLong
  let storeHost ← decodeHost
  let reconsumeTimes ← getInt
  let preparedTransactionOffset ← getLong
  let body ← decodeBodyWith unzip readBody deCompressBody sysFlag
  let topic ← decodeTopic
  let properties ← decodeProperties
  return { topic, flag, properties, body, queueId, storeSize, queueOffset, sysFlag, bornTimestamp,
           bornHost, storeTimestamp, storeHost, commitLogOffset, bodyCRC, reconsumeTimes,
           preparedTransactionOffset }

/-- `MessageDecoder.decode(byteBuffer, readBody, deCompressBody)`: the message, or `null`, and
the bytes left. An exception moves the buffer to its limit. -/
def decodeWith (byteBuffer : Bytes) : Option ClientMessage × Bytes :=
  match (readMessageExtWith unzip readBody deCompressBody).run byteBuffer with
  | some (m, rest) => (some ⟨m, getMsgId m⟩, rest)
  | none => (none, [])

/-- The loop of `decodes`; a message takes at least one byte. -/
def decodesFrom : ℕ → Bytes → List ClientMessage
  | 0, _ => []
  | fuel + 1, byteBuffer =>
    if byteBuffer = [] then []
    else match decodeWith unzip readBody true byteBuffer with
      | (some m, rest) => m :: decodesFrom fuel rest
      | (none, _) => []

/-- `MessageDecoder.decodes(byteBuffer, readBody)`. -/
def decodes (byteBuffer : Bytes) : List ClientMessage :=
  decodesFrom unzip readBody byteBuffer.length byteBuffer

/-- The decoder of the store is the one that reads the body and leaves it as it is. -/
lemma readMessageExt_eq : readMessageExt = readMessageExtWith unzip true false := rfl

end Decode

/-! ### Identifiers, read back -/

lemma charToByte_hexDigit {n : ℕ} (h : n < 16) :
    charToByte (hexDigit n).toUpper = UInt8.ofNat n := by
  have hall : ∀ n : Fin 16, charToByte (hexDigit n).toUpper = UInt8.ofNat n := by decide
  exact hall ⟨n, h⟩

/-- Two digits make the byte. -/
lemma nibbles (b : UInt8) :
    UInt8.ofNat (b.toNat / 16) <<< 4 ||| UInt8.ofNat (b.toNat % 16) = b := by
  have hall : ∀ n : Fin 256, UInt8.ofNat (n.val / 16) <<< 4 ||| UInt8.ofNat (n.val % 16) =
      UInt8.ofNat n.val := by decide +kernel
  have h := hall ⟨b.toNat, b.toNat_lt⟩
  simpa using h

lemma string2bytes_bytes2string (bs : Bytes) : string2bytes (bytes2string bs) = bs := by
  induction bs with
  | nil => rfl
  | cons b bs ih =>
    have hhigh : b.toNat / 16 < 16 := by have := b.toNat_lt; omega
    have hlow : b.toNat % 16 < 16 := by omega
    have hrest : string2bytes (bytes2string (b :: bs)) =
        (charToByte (hexDigit (b.toNat / 16)).toUpper <<< 4 |||
          charToByte (hexDigit (b.toNat % 16)).toUpper) :: string2bytes (bytes2string bs) := rfl
    rw [hrest, ih, charToByte_hexDigit hhigh, charToByte_hexDigit hlow, nibbles]

lemma length_bytes2string (bs : Bytes) : (bytes2string bs).length = 2 * bs.length := by
  induction bs with
  | nil => rfl
  | cons b bs ih =>
    have hcons : (bytes2string (b :: bs)).length = (bytes2string bs).length + 2 := rfl
    rw [hcons, ih, List.length_cons]
    omega

lemma bytes2string_append (a b : Bytes) :
    bytes2string (a ++ b) = bytes2string a ++ bytes2string b :=
  List.flatMap_append

/-- A host as `InetSocketAddress` allows it, of four bytes. -/
def IPv4Host (h : InetSocketAddress) : Prop :=
  ∃ a b c d, h.address = .inet4 a b c d ∧ 0 ≤ h.port.toInt ∧ h.port.toInt ≤ 0xFFFF

/-- **An identifier is taken apart again.** -/
theorem decodeMessageId_getMsgId {m : MessageExt} (h : IPv4Host m.storeHost) :
    decodeMessageId (getMsgId m) = some ⟨m.storeHost, m.commitLogOffset⟩ := by
  obtain ⟨a, b, c, d, haddress, hport⟩ := h
  have hbytes : (SocketAddress2ByteBuffer m.storeHost).getD [] =
      [a, b, c, d] ++ putInt m.storeHost.port := by
    simp [SocketAddress2ByteBuffer, haddress]
  have hid : getMsgId m = bytes2string [a, b, c, d] ++ (bytes2string (putInt m.storeHost.port) ++
      bytes2string (putLong m.commitLogOffset)) := by
    rw [getMsgId, hbytes, List.append_assoc, bytes2string_append, bytes2string_append]
  have hip : (bytes2string [a, b, c, d]).length = 8 := length_bytes2string _
  have hpt : (bytes2string (putInt m.storeHost.port)).length = 8 := by
    rw [length_bytes2string, length_putInt]
  have hdata : (bytes2string (putLong m.commitLogOffset)).length = 16 := by
    rw [length_bytes2string, length_putLong]
  have hport' : (getMsgId m).drop 8 = bytes2string (putInt m.storeHost.port) ++
      bytes2string (putLong m.commitLogOffset) := by
    rw [hid, List.drop_left' hip]
  have hdrop : (getMsgId m).drop 16 = bytes2string (putLong m.commitLogOffset) := by
    rw [show 16 = 8 + 8 from rfl, ← List.drop_drop, hport', List.drop_left' hpt]
  have hlen : ¬ (getMsgId m).length < 32 := by
    rw [hid, List.length_append, List.length_append]
    omega
  have hint := getInt_putInt m.storeHost.port []
  have hlong := getLong_putLong m.commitLogOffset []
  rw [List.append_nil] at hint hlong
  rw [decodeMessageId, if_neg hlen]
  simp only [hport', hdrop]
  rw [hid, List.take_left' hip, List.take_left' hpt, List.take_of_length_le hdata.le]
  simp only [string2bytes_bytes2string, hint, hlong, if_pos hport]
  rw [← haddress]

/-! ### One record -/

section Record

variable {zip : ByteArr → ByteArr} {unzip : ByteArr → Option ByteArr}
  {readBody deCompressBody : Bool} {m : MessageExtBrokerInner} {plain : Option ByteArr}
  {bornHost storeHost : Bytes}

lemma decodeHost_append {h : InetSocketAddress} {host : Bytes} (hh : IPv4Host h)
    (hhost : SocketAddress2ByteBuffer h = some host) (r : Bytes) :
    decodeHost.run (host ++ r) = some (h, r) := by
  obtain ⟨a, b, c, d, haddress, hport⟩ := hh
  have hbytes : SocketAddress2ByteBuffer h = some ([a, b, c, d] ++ putInt h.port) := by
    simp [SocketAddress2ByteBuffer, haddress]
  rw [hbytes, Option.some.injEq] at hhost
  rw [← hhost, List.append_assoc, decodeHost,
    Reader.run_bind_of_some (getBytes_append (n := 4) rfl _),
    Reader.run_bind_of_some (getInt_putInt _ _)]
  simp only [if_pos hport]
  rw [Reader.run_pure, ← haddress]

variable (zip) in
/-- The body of the message before it was compressed, if it is flagged as compressed. -/
def PlainBody (m : MessageExtBrokerInner) (plain : Option ByteArr) : Prop :=
  m.body = if m.sysFlag &&& CompressedFlag = CompressedFlag then plain.map zip else plain

/-- The body that is decoded: none where there are no bytes. -/
def decodedBody (readBody deCompressBody : Bool) (m : MessageExtBrokerInner)
    (plain : Option ByteArr) : Option ByteArr :=
  if m.bodyBytes = [] ∨ readBody = false then none
  else if deCompressBody then plain else m.body

lemma decodeBodyWith_append (hzip : ∀ b, unzip (zip b) = some b) (hplain : PlainBody zip m plain)
    (r : Bytes) :
    (decodeBodyWith unzip readBody deCompressBody m.sysFlag).run
        (putInt (Int32.ofNat m.bodyBytes.length) ++ (m.bodyBytes ++ r)) =
      some (decodedBody readBody deCompressBody m plain, r) := by
  have hto : (Int32.ofNat m.bodyBytes.length).toInt = m.bodyBytes.length :=
    Int32.toInt_ofNat_of_lt (Agreement.bodyBytes_lt m)
  rw [decodeBodyWith, Reader.run_bind_of_some (getInt_putInt _ _), hto, decodedBody]
  by_cases hnil : m.bodyBytes = []
  · simp [hnil]
  have hpos : (0 : ℤ) < m.bodyBytes.length := by
    have := List.length_pos_of_ne_nil hnil
    omega
  rw [if_pos hpos, Int.toNat_natCast, Reader.run_bind_of_some (getBytes_append rfl _)]
  cases readBody with
  | false => simp
  | true =>
    have hread : ¬ (m.bodyBytes = [] ∨ true = false) := by simp [hnil]
    rw [if_pos rfl, if_neg hread, toByteArr_bodyBytes hnil]
    unfold PlainBody at hplain
    by_cases hunzip : deCompressBody = true ∧ m.sysFlag &&& CompressedFlag = CompressedFlag
    · obtain ⟨b, hb⟩ : ∃ b, plain = some b := by
        rw [if_pos hunzip.2] at hplain
        cases plain with
        | none => exact absurd (by simp [MessageExtBrokerInner.bodyBytes, hplain]) hnil
        | some b => exact ⟨b, rfl⟩
      rw [if_pos hunzip.2, hb] at hplain
      rw [if_pos hunzip, if_pos hunzip.1, hplain, hb, Option.map_some, Option.bind_some, hzip,
        Reader.run_bind_of_some (Reader.run_ofOption_some _ _), Reader.run_pure]
    · rw [if_neg hunzip, Reader.run_pure]
      cases deCompressBody with
      | false => rfl
      | true =>
        rw [if_neg (fun hflag => hunzip ⟨rfl, hflag⟩)] at hplain
        rw [hplain, if_pos rfl]

/-- What the client has of a message that was stored. -/
structure Agrees (m : MessageExtBrokerInner) (result : AppendMessageResult)
    (body : Option ByteArr) (d : ClientMessage) : Prop where
  topic : d.topic = m.topic
  queueId : d.queueId = m.queueId
  flag : d.flag = m.flag
  sysFlag : d.sysFlag = m.sysFlag
  queueOffset : d.queueOffset = result.logicsOffset
  commitLogOffset : d.commitLogOffset = Int64.ofNat result.wroteOffset
  bornTimestamp : d.bornTimestamp = m.bornTimestamp
  bornHost : d.bornHost = m.bornHost
  storeTimestamp : d.storeTimestamp = m.storeTimestamp
  storeHost : d.storeHost = m.storeHost
  reconsumeTimes : d.reconsumeTimes = m.reconsumeTimes
  preparedTransactionOffset : d.preparedTransactionOffset = m.preparedTransactionOffset
  body : d.body = body
  properties : d.properties = storedProps m
  msgId : decodeMessageId d.msgId = some ⟨m.storeHost, Int64.ofNat result.wroteOffset⟩

/-- A record is read up to its properties, and then as these are. -/
lemma readMessageExtWith_run {len : Int32} {queueOffset : Int64} {physicOffset : ℕ}
    {properties : Props} {r rest : Bytes} (htopic : m.topicData.length ≤ 127)
    (hborn : IPv4Host m.bornHost) (hstore : IPv4Host m.storeHost)
    (hb : SocketAddress2ByteBuffer m.bornHost = some bornHost)
    (hs : SocketAddress2ByteBuffer m.storeHost = some storeHost)
    (hzip : ∀ b, unzip (zip b) = some b) (hplain : PlainBody zip m plain)
    (hprops : decodeProperties.run
      (putShort m.propertiesData.length ++ (m.propertiesData ++ r)) = some (properties, rest)) :
    (readMessageExtWith unzip readBody deCompressBody).run
        (recordBytes m len bornHost storeHost queueOffset physicOffset ++ r) =
      some ({ topic := m.topic, flag := m.flag, properties,
              body := decodedBody readBody deCompressBody m plain, queueId := m.queueId,
              storeSize := len, queueOffset, sysFlag := m.sysFlag,
              bornTimestamp := m.bornTimestamp, bornHost := m.bornHost,
              storeTimestamp := m.storeTimestamp, storeHost := m.storeHost,
              commitLogOffset := Int64.ofNat physicOffset, bodyCRC := m.bodyCRC,
              reconsumeTimes := m.reconsumeTimes,
              preparedTransactionOffset := m.preparedTransactionOffset }, rest) := by
  rw [recordBytes_eq, fixedBytes, textBytes]
  simp only [List.append_assoc]
  rw [readMessageExtWith, Reader.run_bind_of_some (getInt_putInt _ _),
    Reader.run_bind_of_some (getInt_putInt _ _), Reader.run_bind_of_some (getInt_putInt _ _),
    Reader.run_bind_of_some (getInt_putInt _ _), Reader.run_bind_of_some (getInt_putInt _ _),
    Reader.run_bind_of_some (getLong_putLong _ _), Reader.run_bind_of_some (getLong_putLong _ _),
    Reader.run_bind_of_some (getInt_putInt _ _), Reader.run_bind_of_some (getLong_putLong _ _),
    Reader.run_bind_of_some (decodeHost_append hborn hb _),
    Reader.run_bind_of_some (getLong_putLong _ _),
    Reader.run_bind_of_some (decodeHost_append hstore hs _),
    Reader.run_bind_of_some (getInt_putInt _ _), Reader.run_bind_of_some (getLong_putLong _ _),
    Reader.run_bind_of_some (decodeBodyWith_append hzip hplain _),
    Reader.run_bind_of_some (decodeTopic_append htopic _), Reader.run_bind_of_some hprops,
    Reader.run_pure]

/-- A record that fits is read to its end, and no further. -/
lemma readMessageExtWith_append {len : Int32} {queueOffset : Int64} {physicOffset : ℕ}
    (hfit : Fits m) (hborn : IPv4Host m.bornHost) (hstore : IPv4Host m.storeHost)
    (hb : SocketAddress2ByteBuffer m.bornHost = some bornHost)
    (hs : SocketAddress2ByteBuffer m.storeHost = some storeHost)
    (hzip : ∀ b, unzip (zip b) = some b) (hplain : PlainBody zip m plain) (r : Bytes) :
    (readMessageExtWith unzip readBody deCompressBody).run
        (recordBytes m len bornHost storeHost queueOffset physicOffset ++ r) =
      some ({ topic := m.topic, flag := m.flag, properties := storedProps m,
              body := decodedBody readBody deCompressBody m plain, queueId := m.queueId,
              storeSize := len, queueOffset, sysFlag := m.sysFlag,
              bornTimestamp := m.bornTimestamp, bornHost := m.bornHost,
              storeTimestamp := m.storeTimestamp, storeHost := m.storeHost,
              commitLogOffset := Int64.ofNat physicOffset, bodyCRC := m.bodyCRC,
              reconsumeTimes := m.reconsumeTimes,
              preparedTransactionOffset := m.preparedTransactionOffset }, r) :=
  readMessageExtWith_run hfit.topic hborn hstore hb hs hzip hplain
    (decodeProperties_append hfit.properties r)

end Record

/-! ### What `doAppend` stored -/

/-- A message, and the record `doAppend` put it in. -/
structure StoredMessage (maxMessageSize : ℕ) where
  m : MessageExtBrokerInner
  result : AppendMessageResult
  bytes : Bytes
  stored : ∃ memory fileFromOffset position remaining maxBlank c c',
    doAppend maxMessageSize memory fileFromOffset position remaining maxBlank m c =
      (c', .ok (result, bytes))
  putOK : result.status = .PUT_OK

/-- Topic and properties fit, and the hosts are IPv4 addresses with a port. -/
structure StoredMessage.Decodable {maxMessageSize : ℕ} (s : StoredMessage maxMessageSize) :
    Prop where
  fits : Fits s.m
  bornHost : IPv4Host s.m.bornHost
  storeHost : IPv4Host s.m.storeHost

section Stored

variable {maxMessageSize : ℕ} {s : StoredMessage maxMessageSize}

/-- The bytes are the record with the hosts of the message. -/
lemma StoredMessage.record (s : StoredMessage maxMessageSize) :
    ∃ len bornHost storeHost, SocketAddress2ByteBuffer s.m.bornHost = some bornHost ∧
      SocketAddress2ByteBuffer s.m.storeHost = some storeHost ∧
      s.bytes = recordBytes s.m len bornHost storeHost s.result.logicsOffset
        s.result.wroteOffset := by
  obtain ⟨m, result, bytes, ⟨memory, fileFromOffset, position, remaining, maxBlank, c, c', h⟩,
    hput⟩ := s
  dsimp only at hput ⊢
  unfold doAppend at h
  cases hstore : SocketAddress2ByteBuffer m.storeHost with
  | none =>
    rw [hstore] at h
    exact absurd (congrArg Prod.snd h) (by simp)
  | some storeHost =>
    rw [hstore] at h
    dsimp only at h
    split_ifs at h
    · simp only [Prod.mk.injEq, Except.ok.injEq] at h
      rw [← h.2.1] at hput
      cases hput
    · cases hblank : appendBlank maxMessageSize memory remaining maxBlank with
      | error e => rw [hblank] at h; exact absurd (congrArg Prod.snd h) (by simp)
      | ok bs =>
        simp only [hblank, Prod.mk.injEq, Except.ok.injEq] at h
        rw [← h.2.1] at hput
        cases hput
    · cases hrec : appendRecord maxMessageSize remaining m storeHost
          (recordQueueOffset m (c.touch m)) (fileFromOffset + position) with
      | error e => rw [hrec] at h; exact absurd (congrArg Prod.snd h) (by simp)
      | ok bs =>
        simp only [hrec, Prod.mk.injEq, Except.ok.injEq] at h
        obtain ⟨-, rfl, rfl⟩ := h
        unfold appendRecord at hrec
        cases hborn : SocketAddress2ByteBuffer m.bornHost with
        | none =>
          rw [hborn] at hrec
          split_ifs at hrec
        | some bornHost =>
          rw [hborn] at hrec
          dsimp only at hrec
          split_ifs at hrec
          exact ⟨_, bornHost, storeHost, rfl, rfl, (Except.ok.inj hrec).symm⟩

variable {zip : ByteArr → ByteArr} {unzip : ByteArr → Option ByteArr}
  {readBody deCompressBody : Bool} {plain : Option ByteArr}

lemma decodeWith_stored (hzip : ∀ b, unzip (zip b) = some b) (hs : s.Decodable)
    (hplain : PlainBody zip s.m plain) (r : Bytes) :
    ∃ d, decodeWith unzip readBody deCompressBody (s.bytes ++ r) = (some d, r) ∧
      Agrees s.m s.result (decodedBody readBody deCompressBody s.m plain) d := by
  obtain ⟨len, bornHost, storeHost, hb, hsh, hbytes⟩ := s.record
  have hrun := @readMessageExtWith_append zip unzip readBody deCompressBody s.m plain bornHost
    storeHost len s.result.logicsOffset s.result.wroteOffset hs.fits hs.bornHost hs.storeHost hb hsh
    hzip hplain r
  rw [decodeWith, hbytes, hrun]
  exact ⟨_, rfl, rfl, rfl, rfl, rfl, rfl, rfl, rfl, rfl, rfl, rfl, rfl, rfl, rfl, rfl,
    decodeMessageId_getMsgId hs.storeHost⟩

lemma length_bytes_pos (s : StoredMessage maxMessageSize) : s.bytes ≠ [] := by
  obtain ⟨len, bornHost, storeHost, hb, hs, hbytes⟩ := s.record
  intro hnil
  have hlen := @length_recordBytes s.m len bornHost storeHost s.result.logicsOffset
    s.result.wroteOffset (length_hostBytes hb) (length_hostBytes hs)
  rw [← hbytes, hnil, List.length_nil, recordSize] at hlen
  omega

/-- Record after record is decoded, as long as there is fuel for each. -/
lemma decodesFrom_stored (hzip : ∀ b, unzip (zip b) = some b)
    (stored : List (StoredMessage maxMessageSize × Option ByteArr))
    (h : ∀ p ∈ stored, p.1.Decodable ∧ PlainBody zip p.1.m p.2) (fuel : ℕ)
    (hfuel : stored.length ≤ fuel) :
    List.Forall₂ (fun p d => Agrees p.1.m p.1.result (decodedBody readBody true p.1.m p.2) d)
      stored (decodesFrom unzip readBody fuel (stored.flatMap fun p => p.1.bytes)) := by
  induction stored generalizing fuel with
  | nil =>
    cases fuel with
    | zero => exact .nil
    | succ fuel => exact .nil
  | cons p rest ih =>
    cases fuel with
    | zero => exact absurd hfuel (by simp)
    | succ fuel =>
      obtain ⟨hdec, hplain⟩ := h p List.mem_cons_self
      obtain ⟨d, hd, hagrees⟩ := @decodeWith_stored maxMessageSize p.1 zip unzip readBody true p.2
        hzip hdec hplain (rest.flatMap fun p => p.1.bytes)
      have hne : p.1.bytes ++ rest.flatMap (fun p => p.1.bytes) ≠ [] :=
        List.append_ne_nil_of_left_ne_nil (length_bytes_pos p.1) _
      have htail := ih (fun p hp => h p (List.mem_cons_of_mem _ hp)) fuel
        (by rw [List.length_cons] at hfuel; omega)
      rw [List.flatMap_cons, decodesFrom, if_neg hne, hd]
      exact .cons hagrees htail

lemma length_le_flatMap (stored : List (StoredMessage maxMessageSize × Option ByteArr)) :
    stored.length ≤ (stored.flatMap fun p => p.1.bytes).length := by
  induction stored with
  | nil => exact le_rfl
  | cons p rest ih =>
    have hpos := List.length_pos_of_ne_nil (length_bytes_pos p.1)
    rw [List.flatMap_cons, List.length_append, List.length_cons]
    omega

/-- **What was stored is what the client decodes**, message by message, but for a body of no
bytes; without the bodies it reads just as far. -/
theorem decodes_stored (hzip : ∀ b, unzip (zip b) = some b)
    (stored : List (StoredMessage maxMessageSize × Option ByteArr))
    (h : ∀ p ∈ stored, p.1.Decodable ∧ PlainBody zip p.1.m p.2) :
    List.Forall₂
      (fun p d => Agrees p.1.m p.1.result (if p.1.m.bodyBytes = [] then none else p.2) d)
      stored (decodes unzip true (stored.flatMap fun p => p.1.bytes)) ∧
    ∀ p ∈ stored, ∀ rest, ∃ d d',
      decodeWith unzip true true (p.1.bytes ++ rest) = (some d, rest) ∧
      decodeWith unzip false true (p.1.bytes ++ rest) = (some d', rest) := by
  constructor
  · have hall := @decodesFrom_stored maxMessageSize zip unzip true hzip stored h _
      (length_le_flatMap stored)
    simp only [decodedBody, Bool.true_eq_false, or_false, if_true] at hall
    exact hall
  · intro p hp rest
    obtain ⟨hdec, hplain⟩ := h p hp
    obtain ⟨d, hd, -⟩ := decodeWith_stored hzip hdec hplain rest
    obtain ⟨d', hd', -⟩ := decodeWith_stored hzip hdec hplain rest
    exact ⟨d, d', hd, hd'⟩

end Stored

/-! ### Two messages -/

/-- A message of the topic `T` with the given flags and body. -/
def messageOf (sysFlag : Int32) (body : ByteArr) : MessageExtBrokerInner :=
  { Agreement.messageTo "T".toList with sysFlag := sysFlag, body := some body }

def hostBytes : Bytes := [127, 0, 0, 1, 0, 0, 42, 159]

/-- What an append at the start of the log comes to. -/
def resultOf (m : MessageExtBrokerInner) : AppendMessageResult where
  status := .PUT_OK
  wroteOffset := 0
  wroteBytes := (msgLen m).toNat
  msgId := createMessageId hostBytes 0
  storeTimestamp := m.storeTimestamp
  logicsOffset := 0

def bytesOf (m : MessageExtBrokerInner) : Bytes :=
  recordBytes m (Int32.ofInt (msgLen m)) hostBytes hostBytes 0 0

def noBytes : ByteArr := ⟨[], Nat.two_pow_pos 31⟩

/-- Thirty-two letters `a`. -/
def letters : ByteArr := ⟨List.replicate 32 97, by decide⟩

/-- The letters as the deflater writes them. -/
def deflated : ByteArr := ⟨[120, 94, 75, 76, 196, 15, 0, 200, 48, 12, 33], by decide⟩

/-- The letters and their compressed form, exchanged. -/
def deflate : ByteArr → ByteArr := Equiv.swap letters deflated

def inflate (b : ByteArr) : Option ByteArr := some (deflate b)

lemma inflate_deflate (b : ByteArr) : inflate (deflate b) = some b :=
  congrArg some (Equiv.swap_apply_eq_iff.mpr rfl)

lemma stored_noBytes : ∃ memory fileFromOffset position remaining maxBlank c c',
    doAppend 4096 memory fileFromOffset position remaining maxBlank (messageOf 0 noBytes) c =
      (c', .ok (resultOf (messageOf 0 noBytes), bytesOf (messageOf 0 noBytes))) :=
  ⟨fun _ => 0, 0, 0, 8192, 8192, ⟨fun _ => none, 0⟩, _, rfl⟩

lemma stored_deflated : ∃ memory fileFromOffset position remaining maxBlank c c',
    doAppend 4096 memory fileFromOffset position remaining maxBlank (messageOf 1 deflated) c =
      (c', .ok (resultOf (messageOf 1 deflated), bytesOf (messageOf 1 deflated))) :=
  ⟨fun _ => 0, 0, 0, 8192, 8192, ⟨fun _ => none, 0⟩, _, rfl⟩

def storedNoBytes : StoredMessage 4096 :=
  ⟨messageOf 0 noBytes, resultOf (messageOf 0 noBytes), bytesOf (messageOf 0 noBytes),
    stored_noBytes, rfl⟩

def storedDeflated : StoredMessage 4096 :=
  ⟨messageOf 1 deflated, resultOf (messageOf 1 deflated), bytesOf (messageOf 1 deflated),
    stored_deflated, rfl⟩

lemma fits_messageOf {sysFlag : Int32} {body : ByteArr} : Fits (messageOf sysFlag body) :=
  ⟨show (utf8Encode "T".toList).length ≤ 127 by decide,
    show (utf8Encode ("KEYS".toList ++ [NAME_VALUE_SEPARATOR, 'k', PROPERTY_SEPARATOR])).length ≤
      32767 by decide⟩

lemma ipv4_host : IPv4Host Agreement.host := ⟨127, 0, 0, 1, rfl, by decide, by decide⟩

/-- Both messages, one after the other: the first comes back without a body, the second with
its letters. -/
theorem decodes_both :
    List.Forall₂
      (fun p d => Agrees p.1.m p.1.result (if p.1.m.bodyBytes = [] then none else p.2) d)
      [(storedNoBytes, some noBytes), (storedDeflated, some letters)]
      (decodes inflate true
        (storedNoBytes.bytes ++ (storedDeflated.bytes ++ []))) ∧
    ∀ p ∈ [(storedNoBytes, some noBytes), (storedDeflated, some letters)], ∀ rest, ∃ d d',
      decodeWith inflate true true (p.1.bytes ++ rest) = (some d, rest) ∧
      decodeWith inflate false true (p.1.bytes ++ rest) = (some d', rest) := by
  refine decodes_stored inflate_deflate
    [(storedNoBytes, some noBytes), (storedDeflated, some letters)] ?_
  intro p hp
  simp only [List.mem_cons, List.not_mem_nil, or_false] at hp
  rcases hp with rfl | rfl
  · exact ⟨⟨fits_messageOf, ipv4_host, ipv4_host⟩, rfl⟩
  · exact ⟨⟨fits_messageOf, ipv4_host, ipv4_host⟩,
      congrArg some (Equiv.swap_apply_left letters deflated).symm⟩

/-- A body that is an array of length 0 does not come back as one. -/
theorem noBytes_not_decoded :
    storedNoBytes.Decodable ∧ PlainBody deflate storedNoBytes.m (some noBytes) ∧
    ¬ List.Forall₂ (fun p d => Agrees p.1.m p.1.result p.2 d) [(storedNoBytes, some noBytes)]
      (decodes inflate true storedNoBytes.bytes) := by
  have hnone : (decodes inflate true storedNoBytes.bytes).map (fun d => d.body.isSome) = [false] :=
    rfl
  refine ⟨⟨fits_messageOf, ipv4_host, ipv4_host⟩, rfl, fun h => ?_⟩
  generalize decodes inflate true storedNoBytes.bytes = ds at hnone h
  cases h with
  | cons hagrees htail =>
    cases htail
    rw [List.map_singleton, hagrees.body] at hnone
    cases hnone

end CloudMQ.ClientDecoder
