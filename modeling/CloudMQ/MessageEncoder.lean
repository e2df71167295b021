import CloudMQ.ClientDecoder

/-!
`MessageDecoder.encode`, and what `decode` makes of its bytes.

The buffer is allocated for the body as it is. Of a message that is flagged the compressed body is
put there, behind the length of the other one, and the total size is the one the message was given.
So a message comes back where that size is right and, if it is flagged, where compressing leaves
the body as long as it was.
-/

namespace CloudMQ.MessageEncoder

open CloudMQ.Buffer CloudMQ.Utf8 CloudMQ.Strings CloudMQ.Message CloudMQ.Record CloudMQ.Properties
open CloudMQ.MessageDecoder CloudMQ.SendBackPaths CloudMQ.ClientDecoder

/-! ### The encoder -/

/-- The bytes of `getAddress()`, four or sixteen. -/
def addressBytes : InetAddress → Bytes
  | .inet4 a b c d => [a, b, c, d]
  | .inet6 bytes => bytes

section Encode

variable (order : EntryOrder) (zip : ByteArr → ByteArr) (m : MessageExt)

def topics : Bytes := utf8Encode m.topic

def propertiesBytes : Bytes := utf8Encode (messageProperties2String order m.properties)

/-- The `int` sum `msgLen`, with the length of the topic as a `byte` and the one of the properties
as a `short`. -/
def msgLen (bodyLength : ℕ) : Int32 :=
  84 + 4 + Int32.ofNat bodyLength +
    1 + (Int8.ofNat (topics m).length).toInt32 +
    2 + (Int16.ofNat (propertiesBytes order m).length).toInt32

/-- What is put into the buffer, field by field. -/
def encodedBytes (bodyLength : ℕ) (newBody : Bytes) : Bytes :=
  putInt m.storeSize ++                                 -- 1 TOTALSIZE
  putInt MessageMagicCode ++                            -- 2 MAGICCODE
  putInt m.bodyCRC ++                                   -- 3 BODYCRC
  putInt m.queueId ++                                   -- 4 QUEUEID
  putInt m.flag ++                                      -- 5 FLAG
  putLong m.queueOffset ++                              -- 6 QUEUEOFFSET
  putLong m.commitLogOffset ++                          -- 7 PHYSICALOFFSET
  putInt m.sysFlag ++                                   -- 8 SYSFLAG
  putLong m.bornTimestamp ++                            -- 9 BORNTIMESTAMP
  (addressBytes m.bornHost.address ++ putInt m.bornHost.port) ++    -- 10 BORNHOST
  putLong m.storeTimestamp ++                           -- 11 STORETIMESTAMP
  (addressBytes m.storeHost.address ++ putInt m.storeHost.port) ++  -- 12 STOREHOST
  putInt m.reconsumeTimes ++                            -- 13 RECONSUMETIMES
  putLong m.preparedTransactionOffset ++                -- 14 Prepared Transaction Offset
  putInt (Int32.ofNat bodyLength) ++                    -- 15 BODY
  newBody ++
  [UInt8.ofNat (topics m).length] ++                    -- 16 TOPIC
  topics m ++
  putShort (propertiesBytes order m).length ++          -- 17 properties
  propertiesBytes order m

/-- The body as it is put. -/
def newBody (body : ByteArr) : ByteArr :=
  if m.sysFlag &&& CompressedFlag = CompressedFlag then zip body else body

/-- `MessageDecoder.encode`; `none` is an exception. A buffer has no negative capacity, and nothing
is put behind its end; what was not put is zero. -/
def encode : Option Bytes :=
  match m.body with
  | none => none
  | some body =>
    let msgLen := msgLen order m body.val.length
    if msgLen.toInt < 0 then none
    else
      let bs := encodedBytes order m body.val.length (newBody zip m body).val
      if msgLen.toInt < bs.length then none
      else some (bs ++ List.replicate (msgLen.toInt - bs.length).toNat 0)

end Encode

/-! ### The round trip -/

/-- The length of the record with the body as it is. -/
def encodedSize (order : EntryOrder) (m : MessageExt) : ℕ :=
  91 + (m.body.map fun b => b.val.length).getD 0 + (topics m).length +
    (propertiesBytes order m).length

/-- A message with a body, hosts of four bytes, and a topic and properties that fit. -/
structure Encodable (order : EntryOrder) (m : MessageExt) : Prop where
  body : ∃ body, m.body = some body ∧ body.val ≠ []
  bornHost : IPv4Host m.bornHost
  storeHost : IPv4Host m.storeHost
  topic : (topics m).length ≤ 127
  properties : CleanProps m.properties
  propertiesLength : (propertiesBytes order m).length ≤ 32767

/-- The other message has every field that is encoded. -/
structure SameMessage (m d : MessageExt) : Prop where
  storeSize : d.storeSize = m.storeSize
  bodyCRC : d.bodyCRC = m.bodyCRC
  queueId : d.queueId = m.queueId
  flag : d.flag = m.flag
  queueOffset : d.queueOffset = m.queueOffset
  commitLogOffset : d.commitLogOffset = m.commitLogOffset
  sysFlag : d.sysFlag = m.sysFlag
  bornTimestamp : d.bornTimestamp = m.bornTimestamp
  bornHost : d.bornHost = m.bornHost
  storeTimestamp : d.storeTimestamp = m.storeTimestamp
  storeHost : d.storeHost = m.storeHost
  reconsumeTimes : d.reconsumeTimes = m.reconsumeTimes
  preparedTransactionOffset : d.preparedTransactionOffset = m.preparedTransactionOffset
  body : d.body = m.body
  topic : d.topic = m.topic
  properties : ∀ name, d.properties.get name = m.properties.get name

/-- Whatever undoes the compression, the message is encoded and comes back, all bytes are read,
and the total size is their number. -/
def RoundTrips (order : EntryOrder) (zip : ByteArr → ByteArr) (m : MessageExt) : Prop :=
  ∀ unzip : ByteArr → Option ByteArr, (∀ b, unzip (zip b) = some b) →
    ∃ bytes d, encode order zip m = some bytes ∧
      decodeWith unzip true true bytes = (some d, []) ∧ SameMessage m d.toMessageExt ∧
      d.storeSize.toInt = bytes.length

section RoundTrip

variable {order : EntryOrder} {zip : ByteArr → ByteArr} {unzip : ByteArr → Option ByteArr}
  {m d : MessageExt} {body : ByteArr} {bytes rest : Bytes}

/-! ### Lengths -/

/-- The sum is the length of the record, unless it runs over and is negative. -/
lemma toInt_msgLen (hm : Encodable order m) (hbody : m.body = some body) :
    (msgLen order m body.val.length).toInt =
      if encodedSize order m < 2 ^ 31 then (encodedSize order m : ℤ)
      else encodedSize order m - 2 ^ 32 := by
  have hlen : (Int32.ofNat body.val.length).toInt = body.val.length :=
    Int32.toInt_ofNat_of_lt body.property
  have htopic : (Int8.ofNat (topics m).length).toInt32.toInt = (topics m).length := by
    rw [Int8.toInt_toInt32, Int8.toInt_ofNat_of_lt (by have := hm.topic; omega)]
  have hprops : (Int16.ofNat (propertiesBytes order m).length).toInt32.toInt =
      (propertiesBytes order m).length := by
    rw [Int16.toInt_toInt32, Int16.toInt_ofNat_of_lt (by have := hm.propertiesLength; omega)]
  have hsize : encodedSize order m =
      91 + body.val.length + (topics m).length + (propertiesBytes order m).length := by
    rw [encodedSize, hbody]
    rfl
  have h1 := body.property
  have h2 := hm.topic
  have h3 := hm.propertiesLength
  rw [msgLen]
  simp only [Int32.toInt_add, hlen, htopic, hprops, Int.bmod_add_bmod]
  have h91 : ((84 : Int32).toInt, (4 : Int32).toInt, (1 : Int32).toInt, (2 : Int32).toInt) =
      (84, 4, 1, 2) := rfl
  simp only [Prod.mk.injEq] at h91
  rw [h91.1, h91.2.1, h91.2.2.1, h91.2.2.2, hsize, Int.bmod_def]
  split <;> split <;> omega

/-- Everything up to the body. -/
def headBytes (m : MessageExt) : Bytes :=
  putInt m.storeSize ++ (putInt MessageMagicCode ++ (putInt m.bodyCRC ++ (putInt m.queueId ++
    (putInt m.flag ++ (putLong m.queueOffset ++ (putLong m.commitLogOffset ++ (putInt m.sysFlag ++
      (putLong m.bornTimestamp ++ ((addressBytes m.bornHost.address ++ putInt m.bornHost.port) ++
        (putLong m.storeTimestamp ++ ((addressBytes m.storeHost.address ++
          putInt m.storeHost.port) ++ (putInt m.reconsumeTimes ++
            putLong m.preparedTransactionOffset))))))))))))

/-- Everything behind the body. -/
def tailBytes (order : EntryOrder) (m : MessageExt) : Bytes :=
  [UInt8.ofNat (topics m).length] ++ (topics m ++
    (putShort (propertiesBytes order m).length ++ propertiesBytes order m))

lemma encodedBytes_eq {n : ℕ} {bs : Bytes} : encodedBytes order m n bs =
    headBytes m ++ (putInt (Int32.ofNat n) ++ (bs ++ tailBytes order m)) := by
  unfold encodedBytes headBytes tailBytes
  simp only [List.append_assoc]

lemma socketBytes_eq {h : InetSocketAddress} (hh : IPv4Host h) :
    SocketAddress2ByteBuffer h = some (addressBytes h.address ++ putInt h.port) := by
  obtain ⟨a, b, c, d, haddress, -⟩ := hh
  simp [SocketAddress2ByteBuffer, addressBytes, haddress]

lemma length_encodedBytes (hm : Encodable order m) {n : ℕ} {bs : Bytes} :
    (encodedBytes order m n bs).length =
      91 + bs.length + (topics m).length + (propertiesBytes order m).length := by
  have hborn := length_hostBytes (socketBytes_eq hm.bornHost)
  have hstore := length_hostBytes (socketBytes_eq hm.storeHost)
  rw [encodedBytes_eq, headBytes, tailBytes]
  simp only [List.length_append, length_putInt, length_putLong, length_putShort,
    List.length_singleton] at hborn hstore ⊢
  omega

/-! ### Reading -/

/-- The reader of what stands behind the fields of fixed length. -/
def readRest (unzip : ByteArr → Option ByteArr) (m : MessageExt) : Reader MessageExt := do
  let body ← decodeBodyWith unzip true true m.sysFlag
  let topic ← decodeTopic
  let properties ← decodeProperties
  return { m with body, topic, properties }

lemma decodeHost_addressBytes {h : InetSocketAddress} (hh : IPv4Host h) (r : Bytes) :
    decodeHost.run (addressBytes h.address ++ (putInt h.port ++ r)) = some (h, r) := by
  have hread := decodeHost_append hh (socketBytes_eq hh) r
  rwa [List.append_assoc] at hread

/-- The fields of fixed length are read as they were put. -/
lemma readMessageExtWith_headBytes (hborn : IPv4Host m.bornHost) (hstore : IPv4Host m.storeHost)
    (r : Bytes) :
    (readMessageExtWith unzip true true).run (headBytes m ++ r) = (readRest unzip m).run r := by
  rw [headBytes]
  simp only [List.append_assoc]
  rw [readMessageExtWith, Reader.run_bind_of_some (getInt_putInt _ _),
    Reader.run_bind_of_some (getInt_putInt _ _), Reader.run_bind_of_some (getInt_putInt _ _),
    Reader.run_bind_of_some (getInt_putInt _ _), Reader.run_bind_of_some (getInt_putInt _ _),
    Reader.run_bind_of_some (getLong_putLong _ _), Reader.run_bind_of_some (getLong_putLong _ _),
    Reader.run_bind_of_some (getInt_putInt _ _), Reader.run_bind_of_some (getLong_putLong _ _),
    Reader.run_bind_of_some (decodeHost_addressBytes hborn _),
    Reader.run_bind_of_some (getLong_putLong _ _),
    Reader.run_bind_of_some (decodeHost_addressBytes hstore _),
    Reader.run_bind_of_some (getInt_putInt _ _), Reader.run_bind_of_some (getLong_putLong _ _)]
  rfl

lemma toByteArr_val (b : ByteArr) : toByteArr b.val = some b := dif_pos b.property

/-- A compressed body of the same length is taken whole, and uncompressed. -/
lemma decodeBodyWith_newBody (hzip : ∀ b, unzip (zip b) = some b) (hne : body.val ≠ [])
    (hlen : m.sysFlag &&& CompressedFlag = CompressedFlag →
      (zip body).val.length = body.val.length) (r : Bytes) :
    (decodeBodyWith unzip true true m.sysFlag).run
        (putInt (Int32.ofNat body.val.length) ++ ((newBody zip m body).val ++ r)) =
      some (some body, r) := by
  have hto : (Int32.ofNat body.val.length).toInt = body.val.length :=
    Int32.toInt_ofNat_of_lt body.property
  have hpos : (0 : ℤ) < body.val.length := by
    have := List.length_pos_of_ne_nil hne
    omega
  rw [decodeBodyWith, Reader.run_bind_of_some (getInt_putInt _ _), hto, if_pos hpos,
    Int.toNat_natCast, newBody]
  by_cases hflag : m.sysFlag &&& CompressedFlag = CompressedFlag
  · rw [if_pos hflag, Reader.run_bind_of_some (getBytes_append (hlen hflag) _), if_pos rfl,
      if_pos ⟨rfl, hflag⟩, toByteArr_val, Option.bind_some, hzip,
      Reader.run_bind_of_some (Reader.run_ofOption_some _ _), Reader.run_pure]
  · rw [if_neg hflag, Reader.run_bind_of_some (getBytes_append rfl _), if_pos rfl,
      if_neg (fun h => hflag h.2), Reader.run_pure, toByteArr_val]

/-- A body that is read was uncompressed from bytes of the length in front of it. -/
lemma unzip_of_decodeBodyWith {sysFlag : Int32} {r : Bytes} (hne : body.val ≠ [])
    (hflag : sysFlag &&& CompressedFlag = CompressedFlag)
    (h : (decodeBodyWith unzip true true sysFlag).run
      (putInt (Int32.ofNat body.val.length) ++ r) = some (some body, rest)) :
    ∃ taken : ByteArr, taken.val.length = body.val.length ∧ unzip taken = some body := by
  have hto : (Int32.ofNat body.val.length).toInt = body.val.length :=
    Int32.toInt_ofNat_of_lt body.property
  have hpos : (0 : ℤ) < body.val.length := by
    have := List.length_pos_of_ne_nil hne
    omega
  rw [decodeBodyWith, Reader.run_bind_of_some (getInt_putInt _ _), hto, if_pos hpos,
    Int.toNat_natCast] at h
  obtain ⟨taken, mid, htaken, h⟩ := Reader.run_bind_eq_some h
  obtain ⟨-, hlen⟩ := getBytes_eq_some htaken
  have harr : toByteArr taken = some ⟨taken, hlen ▸ body.property⟩ := dif_pos _
  rw [if_pos rfl, if_pos ⟨rfl, hflag⟩, harr, Option.bind_some] at h
  obtain ⟨plain, mid', hplain, h⟩ := Reader.run_bind_eq_some h
  rw [Reader.run_pure, Option.some.injEq, Prod.mk.injEq, Option.some.injEq] at h
  refine ⟨⟨taken, hlen ▸ body.property⟩, hlen, ?_⟩
  cases hunzip : unzip ⟨taken, hlen ▸ body.property⟩ with
  | none =>
    rw [hunzip] at hplain
    cases hplain
  | some b =>
    rw [hunzip, Reader.run_ofOption_some, Option.some.injEq, Prod.mk.injEq] at hplain
    rw [hplain.1, h.1]

/-- Topic and properties are read as they were put. -/
lemma readRest_run {plain : Option ByteArr} {properties : Props} {bs r : Bytes}
    (htopic : (topics m).length ≤ 127)
    (hbody : (decodeBodyWith unzip true true m.sysFlag).run bs =
      some (plain, tailBytes order m ++ r))
    (hprops : decodeProperties.run
      (putShort (propertiesBytes order m).length ++ (propertiesBytes order m ++ r)) =
        some (properties, rest)) :
    (readRest unzip m).run bs = some ({ m with body := plain, properties }, rest) := by
  have htopic' := decodeTopic_utf8Encode htopic
    (putShort (propertiesBytes order m).length ++ (propertiesBytes order m ++ r))
  rw [readRest, Reader.run_bind_of_some hbody, tailBytes]
  simp only [List.append_assoc]
  rw [topics, Reader.run_bind_of_some htopic', Reader.run_bind_of_some hprops, Reader.run_pure]

/-! ### The bytes -/

/-- What is encoded begins with what was put, and is as long as the sum says. -/
lemma encode_eq_some (hbody : m.body = some body) (h : encode order zip m = some bytes) :
    (∃ zeros, bytes = encodedBytes order m body.val.length (newBody zip m body).val ++ zeros) ∧
      (bytes.length : ℤ) = (msgLen order m body.val.length).toInt := by
  rw [encode, hbody] at h
  dsimp only at h
  split_ifs at h with hneg hover
  rw [Option.some.injEq] at h
  refine ⟨⟨_, h.symm⟩, ?_⟩
  rw [← h, List.length_append, List.length_replicate]
  omega

/-- Where the sizes agree, the buffer is filled to its end. -/
lemma encode_of_length (hm : Encodable order m) (hbody : m.body = some body)
    (hsize : encodedSize order m < 2 ^ 31)
    (hlen : (newBody zip m body).val.length = body.val.length) :
    encode order zip m =
        some (encodedBytes order m body.val.length (newBody zip m body).val) ∧
      (encodedBytes order m body.val.length (newBody zip m body).val).length =
        encodedSize order m := by
  have hall : (encodedBytes order m body.val.length (newBody zip m body).val).length =
      encodedSize order m := by
    rw [length_encodedBytes hm, encodedSize, hbody, hlen]
    rfl
  have hto := toInt_msgLen hm hbody
  rw [if_pos hsize] at hto
  refine ⟨?_, hall⟩
  rw [encode, hbody]
  dsimp only
  rw [hto, hall, if_neg (by omega), if_neg (by omega)]
  simp

/-- What undoes the compression, and refuses everything else. -/
def strict (unzip : ByteArr → Option ByteArr) (zip : ByteArr → ByteArr) (c : ByteArr) :
    Option ByteArr :=
  (unzip c).filter fun b => zip b = c

lemma strict_zip (hzip : ∀ b, unzip (zip b) = some b) (b : ByteArr) :
    strict unzip zip (zip b) = some b := by
  simp [strict, hzip]

lemma zip_of_strict {c : ByteArr} (h : strict unzip zip c = some body) : zip body = c := by
  simpa using (Option.filter_eq_some_iff.mp h).2

/-- A total size that is the number of bytes is the length of the record. -/
lemma storeSize_eq (hm : Encodable order m) (hbody : m.body = some body)
    (hencode : encode order zip m = some bytes) (hsize : m.storeSize.toInt = bytes.length) :
    m.storeSize.toInt = encodedSize order m := by
  obtain ⟨-, hlength⟩ := encode_eq_some hbody hencode
  rw [toInt_msgLen hm hbody] at hlength
  split_ifs at hlength with hlt
  · exact hsize.trans hlength
  · -- the sum would be negative
    have h1 := body.property
    have h2 := hm.topic
    have h3 := hm.propertiesLength
    rw [encodedSize, hbody, Option.map_some, Option.getD_some] at hlength
    omega

/-- A flagged body that is read was uncompressed from as many bytes as it has. -/
lemma unzip_of_readMessageExt (hm : Encodable order m) (hbody : m.body = some body)
    (hne : body.val ≠ []) (hflag : m.sysFlag &&& CompressedFlag = CompressedFlag) {bs tail : Bytes}
    (hrun : (readMessageExtWith unzip true true).run
      (encodedBytes order m body.val.length bs ++ tail) = some (d, rest)) (hd : d.body = m.body) :
    ∃ taken : ByteArr, taken.val.length = body.val.length ∧ unzip taken = some body := by
  simp only [encodedBytes_eq, List.append_assoc,
    readMessageExtWith_headBytes hm.bornHost hm.storeHost] at hrun
  obtain ⟨plain, mid, hplain, hrun⟩ := Reader.run_bind_eq_some hrun
  obtain ⟨topic, mid', -, hrun⟩ := Reader.run_bind_eq_some hrun
  obtain ⟨properties, mid'', -, hrun⟩ := Reader.run_bind_eq_some hrun
  simp only [Reader.run_pure, Option.some.injEq, Prod.mk.injEq] at hrun
  obtain ⟨rfl, -⟩ := hrun
  obtain rfl : plain = some body := hd.trans hbody
  exact unzip_of_decodeBodyWith hne hflag hplain

/-- Where the sizes agree, every byte is read, and the message is there again. -/
lemma decodeWith_encodedBytes (hunzip : ∀ b, unzip (zip b) = some b) (hm : Encodable order m)
    (hbody : m.body = some body) (hne : body.val ≠ [])
    (hlen : m.sysFlag &&& CompressedFlag = CompressedFlag →
      (zip body).val.length = body.val.length) :
    ∃ d, decodeWith unzip true true
        (encodedBytes order m body.val.length (newBody zip m body).val) = (some d, []) ∧
      SameMessage m d.toMessageExt := by
  have hrun := readRest_run hm.topic
    (decodeBodyWith_newBody hunzip hne hlen (tailBytes order m ++ []))
    (decodeProperties_utf8Encode hm.propertiesLength [])
  rw [List.append_nil] at hrun
  generalize hd : ({ m with
    body := some body
    properties := string2messageProperties (messageProperties2String order m.properties) } :
      MessageExt) = d at hrun
  rw [decodeWith, encodedBytes_eq, readMessageExtWith_headBytes hm.bornHost hm.storeHost, hrun]
  refine ⟨⟨d, SendMessageBack.getMsgId d⟩, rfl, ?_⟩
  subst hd
  exact ⟨rfl, rfl, rfl, rfl, rfl, rfl, rfl, rfl, rfl, rfl, rfl, rfl, rfl, hbody.symm, rfl,
    fun name => get_roundTrip hm.properties name⟩

/-- **When a message comes back.** -/
theorem roundTrips_iff (hzip : ∃ unzip : ByteArr → Option ByteArr, ∀ b, unzip (zip b) = some b)
    (hm : Encodable order m) :
    RoundTrips order zip m ↔
      m.storeSize.toInt = encodedSize order m ∧
      (m.sysFlag &&& CompressedFlag = CompressedFlag →
        ∀ body, m.body = some body → (zip body).val.length = body.val.length) := by
  obtain ⟨body, hbody, hne⟩ := hm.body
  constructor
  · intro h
    obtain ⟨unzip, hunzip⟩ := hzip
    obtain ⟨bytes, d, hencode, hdecode, hsame, hsize⟩ := h (strict unzip zip) (strict_zip hunzip)
    rw [hsame.storeSize] at hsize
    refine ⟨storeSize_eq hm hbody hencode hsize, fun hflag body' hbody' => ?_⟩
    obtain rfl : body = body' := Option.some.inj (hbody.symm.trans hbody')
    obtain ⟨⟨zeros, hbytes⟩, -⟩ := encode_eq_some hbody hencode
    unfold decodeWith at hdecode
    split at hdecode
    · next m' left hrun =>
      rw [Prod.mk.injEq, Option.some.injEq] at hdecode
      have hread : m'.body = m.body := by
        rw [← hsame.body, ← hdecode.1]
      rw [hbytes] at hrun
      obtain ⟨taken, hlen, htaken⟩ := unzip_of_readMessageExt hm hbody hne hflag hrun hread
      rw [zip_of_strict htaken, hlen]
    · cases hdecode
  · rintro ⟨hsize, hzipped⟩ unzip hunzip
    have hlt : encodedSize order m < 2 ^ 31 := by
      have := m.storeSize.toInt_lt
      omega
    have hlen : (newBody zip m body).val.length = body.val.length := by
      rw [newBody]
      split_ifs with hflag
      · exact hzipped hflag body hbody
      · rfl
    obtain ⟨hencode, hall⟩ := encode_of_length hm hbody hlt hlen
    obtain ⟨d, hdecode, hsame⟩ := decodeWith_encodedBytes hunzip hm hbody hne
      (fun hflag => hzipped hflag body hbody)
    exact ⟨_, d, hencode, hdecode, hsame, by rw [hsame.storeSize, hall, hsize]⟩

end RoundTrip

/-! ### Thirty-two letters -/

def entryOrder : EntryOrder := ⟨Props.entries, Props.perm_entries⟩

/-- The letters under the topic `T`, with the size of their record. -/
def lettersMessage (sysFlag : Int32) : MessageExt where
  topic := "T".toList
  flag := 0
  properties := Props.empty.put PROPERTY_KEYS "k".toList
  body := some letters
  queueId := 0
  storeSize := 131
  queueOffset := 0
  sysFlag := sysFlag
  bornTimestamp := 1700000000000
  bornHost := Agreement.host
  storeTimestamp := 1700000000001
  storeHost := Agreement.host
  commitLogOffset := 0
  bodyCRC := 0
  reconsumeTimes := 0
  preparedTransactionOffset := 0

lemma encodable_letters (sysFlag : Int32) : Encodable entryOrder (lettersMessage sysFlag) where
  body := ⟨letters, rfl, by decide⟩
  bornHost := ipv4_host
  storeHost := ipv4_host
  topic := show (utf8Encode "T".toList).length ≤ 127 by decide
  properties := by
    intro e he
    obtain rfl : e = ("KEYS".toList, "k".toList) := List.mem_singleton.mp he
    exact ⟨⟨by decide, by decide, by decide⟩, ⟨by decide, by decide, by decide⟩⟩
  propertiesLength :=
    show (utf8Encode ("KEYS".toList ++ [NAME_VALUE_SEPARATOR, 'k', PROPERTY_SEPARATOR])).length ≤
      32767 by decide

/-- As they are, the letters come back. -/
theorem roundTrips_letters : RoundTrips entryOrder deflate (lettersMessage 0) :=
  (roundTrips_iff ⟨inflate, inflate_deflate⟩ (encodable_letters 0)).mpr
    ⟨rfl, fun h => absurd h (by decide)⟩

/-- Flagged as compressed they do not: eleven bytes stand where thirty-two are read, and eight bytes
are left at the end. -/
theorem not_roundTrips_letters : (∀ b, inflate (deflate b) = some b) ∧
    Encodable entryOrder (lettersMessage 1) ∧
    (lettersMessage 1).storeSize.toInt = encodedSize entryOrder (lettersMessage 1) ∧
    ¬ RoundTrips entryOrder deflate (lettersMessage 1) := by
  refine ⟨inflate_deflate, encodable_letters 1, rfl, fun h => ?_⟩
  obtain ⟨bytes, d, hencode, hdecode, -⟩ := h inflate inflate_deflate
  have hleft : (encode entryOrder deflate (lettersMessage 1)).map (fun bytes =>
      (decodeWith inflate true true bytes).2.length) = some 8 := by decide +kernel
  rw [hencode, Option.map_some, hdecode] at hleft
  exact absurd hleft (by simp)

end CloudMQ.MessageEncoder
