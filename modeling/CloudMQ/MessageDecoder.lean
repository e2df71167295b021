import CloudMQ.Puts

/-!
Reading a whole message back from the log: `MessageDecoder.decode`, as
`DefaultMessageStore.lookMessageByOffset` calls it, with the body and without decompressing it.

Neither the magic code nor the CRC is looked at. The decoder answers `null` to every exception;
one that is thrown while the bytes are looked for leaves the call.
-/

namespace CloudMQ.MessageDecoder

open CloudMQ.Buffer CloudMQ.Utf8 CloudMQ.Strings CloudMQ.Message CloudMQ.Record CloudMQ.Codec
open CloudMQ.Segment CloudMQ.Chain CloudMQ.CommitLog CloudMQ.Append CloudMQ.LogBytes CloudMQ.Puts

structure MessageExt where
  topic : Text
  flag : Int32
  properties : Props
  body : Option ByteArr
  queueId : Int32
  storeSize : Int32
  queueOffset : Int64
  sysFlag : Int32
  bornTimestamp : Int64
  bornHost : InetSocketAddress
  storeTimestamp : Int64
  storeHost : InetSocketAddress
  commitLogOffset : Int64
  bodyCRC : Int32
  reconsumeTimes : Int32
  preparedTransactionOffset : Int64

def MessageExt.getProperty (m : MessageExt) (name : Text) : Option Text := m.properties.get name

/-! ### The decoder -/

/-- Four bytes of address, and a port that `InetSocketAddress` takes. -/
def decodeHost : Reader InetSocketAddress := do
  let address ← getBytes 4
  let port ← getInt
  match address with
  | [a, b, c, d] =>
    if 0 ≤ port.toInt ∧ port.toInt ≤ 0xFFFF then return ⟨.inet4 a b c d, port⟩ else Reader.fail
  | _ => Reader.fail

/-- The bytes as an array; an array that is read is never too long for one. -/
def toByteArr (bs : Bytes) : Option ByteArr := if h : bs.length < 2 ^ 31 then some ⟨bs, h⟩ else none

/-- Without a length there is no body. -/
def decodeBody : Reader (Option ByteArr) := do
  let bodyLen ← getInt
  if 0 < bodyLen.toInt then
    let body ← getBytes bodyLen.toInt.toNat
    return toByteArr body
  else return none

/-- `new byte[n]`, filled. -/
def getArray (n : ℤ) : Reader Bytes := if n < 0 then Reader.fail else getBytes n.toNat

def decodeTopic : Reader Text := do
  let topicLen ← getByte
  let topic ← getArray topicLen
  return utf8Decode topic

def decodeProperties : Reader Props := do
  let propertiesLength ← getShort
  if 0 < propertiesLength then
    let properties ← getArray propertiesLength
    return string2messageProperties (utf8Decode properties)
  else return Props.empty

def readMessageExt : Reader MessageExt := do
  let storeSize ← getInt
  let _ ← getInt
  let bodyCRC ← getInt
  let queueId ← getInt
  let flag ← getInt
  let queueOffset ← getLong
  let commitLogOffset ← getLong
  let sysFlag ← getInt
  let bornTimestamp ← getLong
  let bornHost ← decodeHost
  let storeTimestamp ← getLong
  let storeHost ← decodeHost
  let reconsumeTimes ← getInt
  let preparedTransactionOffset ← getLong
  let body ← decodeBody
  let topic ← decodeTopic
  let properties ← decodeProperties
  return { topic, flag, properties, body, queueId, storeSize, queueOffset, sysFlag, bornTimestamp,
           bornHost, storeTimestamp, storeHost, commitLogOffset, bodyCRC, reconsumeTimes,
           preparedTransactionOffset }

/-- `MessageDecoder.decode(byteBuffer, true, false)`. -/
def decode (byteBuffer : Bytes) : Option MessageExt :=
  (readMessageExt.run byteBuffer).map Prod.fst

/-! ### Looking a message up -/

section Look

variable (q : MapedFileQueue Bytes)

/-- `findMapedFileByOffset` at a `long`. A negative offset less than a file away from zero is
taken for one in the first file. -/
def findMapedFile (offset : ℤ) (returnFirstOnNotFound : Bool) : Option (MapedFile Bytes) :=
  if 0 ≤ offset then q.findMapedFileByOffset offset.toNat returnFirstOnNotFound
  else if offset.tdiv q.mapedFileSize = 0 then q.findMapedFileByOffset 0 returnFirstOnNotFound
  else if returnFirstOnNotFound then q.mapedFiles.head?
  else none

/-- `selectMapedBuffer(pos, size)`. A sum that does not fit an `int` is small enough, too. A
position or a limit the buffer does not have is an exception. -/
def selectMapedBuffer (f : MapedFile Bytes) (pos : ℤ) (size : Int32) :
    Except Unit (Option Bytes) :=
  if pos + size.toInt ≤ f.wrotePostion ∨ 2 ^ 31 ≤ pos + size.toInt then
    if f.available then
      if pos < 0 ∨ size.toInt < 0 ∨ (f.wrotePostion : ℤ) < pos + size.toInt then .error ()
      else .ok (some ((f.mappedByteBuffer.drop pos.toNat).take size.toInt.toNat))
    else .ok none
  else .ok none

/-- `CommitLog.getMessage`. -/
def getMessage (offset : Int64) (size : Int32) : Except Unit (Option Bytes) :=
  match findMapedFile q offset.toInt (decide (offset = 0)) with
  | none => .ok none
  | some f => selectMapedBuffer f (offset.toInt.tmod q.mapedFileSize) size

/-- `DefaultMessageStore.lookMessageByOffset`. -/
def lookMessageByOffset (commitLogOffset : Int64) : Except Unit (Option MessageExt) :=
  match getMessage q commitLogOffset 4 with
  | .error e => .error e
  | .ok none => .ok none
  | .ok (some byteBuffer) =>
    match getInt.run byteBuffer with
    | none => .error ()
    | some (size, _) => (getMessage q commitLogOffset size).map fun r => r.bind decode

end Look

/-! ### What is found -/

section Found

variable {q : MapedFileQueue Bytes} {f : MapedFile Bytes} {offset : Int64} {size : Int32}
  {bs : Bytes} {m : MessageExt}

lemma selectMapedBuffer_some {pos : ℤ} (h : selectMapedBuffer f pos size = .ok (some bs)) :
    0 ≤ pos ∧ 0 ≤ size.toInt ∧ pos + size.toInt ≤ f.wrotePostion ∧
      bs = (f.mappedByteBuffer.drop pos.toNat).take size.toInt.toNat := by
  unfold selectMapedBuffer at h
  split_ifs at h with h1 h2 h3
  · push Not at h3
    simp only [Except.ok.injEq, Option.some.injEq] at h
    exact ⟨h3.1, h3.2.1, h3.2.2, h.symm⟩
  · exact absurd h (by simp)
  · exact absurd h (by simp)

/-- Nothing is read at a negative offset. -/
lemma nonneg_of_findMapedFile (hf : findMapedFile q offset.toInt (decide (offset = 0)) = some f)
    (hpos : 0 ≤ offset.toInt.tmod q.mapedFileSize) : 0 ≤ offset.toInt := by
  by_contra hneg
  have hmod : offset.toInt.tmod q.mapedFileSize = 0 := by
    have h := Int.tmod_nonneg (q.mapedFileSize : ℤ) (show 0 ≤ -offset.toInt by omega)
    rw [Int.neg_tmod] at h
    omega
  have hdiv := Int.mul_tdiv_add_tmod offset.toInt q.mapedFileSize
  have hzero : offset ≠ 0 := by
    rintro rfl
    exact hneg le_rfl
  have hquot : ¬ offset.toInt.tdiv q.mapedFileSize = 0 := by
    intro hquot
    rw [hmod, hquot, Int.mul_zero] at hdiv
    omega
  rw [findMapedFile, if_neg hneg, if_neg hquot, if_neg (by simpa using hzero)] at hf
  exact absurd hf (by simp)

lemma getMessage_some (h : getMessage q offset size = .ok (some bs)) :
    0 ≤ offset.toInt ∧ 0 ≤ size.toInt ∧
      ∃ f, q.findMapedFileByOffset offset.toInt.toNat (decide (offset = 0)) = some f ∧
        offset.toInt.toNat % q.mapedFileSize + size.toInt.toNat ≤ f.wrotePostion ∧
        bs = (f.mappedByteBuffer.drop (offset.toInt.toNat % q.mapedFileSize)).take
          size.toInt.toNat := by
  unfold getMessage at h
  split at h
  · exact absurd h (by simp)
  · next f hf =>
    obtain ⟨hpos, hsize, hle, hbs⟩ := selectMapedBuffer_some h
    have hoff := nonneg_of_findMapedFile hf hpos
    have hmod : offset.toInt.tmod q.mapedFileSize =
        ((offset.toInt.toNat % q.mapedFileSize : ℕ) : ℤ) := by
      rw [Int.ofNat_tmod, Int.toNat_of_nonneg hoff]
    rw [findMapedFile, if_pos hoff] at hf
    rw [hmod] at hle hbs
    exact ⟨hoff, hsize, f, hf, by omega, by rw [hbs, Int.toNat_natCast]⟩

/-- A message that is found lies in the log. -/
lemma lookMessageByOffset_lt (hc : Chained q) (h : lookMessageByOffset q offset = .ok (some m)) :
    0 ≤ offset.toInt ∧ offset.toInt < q.getMaxOffset := by
  unfold lookMessageByOffset at h
  split at h
  · exact absurd h (by simp)
  · exact absurd h (by simp)
  · next bs hbs =>
    obtain ⟨hoff, -, f, hf, hle, -⟩ := getMessage_some hbs
    have h4 : (4 : Int32).toInt.toNat = 4 := rfl
    refine ⟨hoff, ?_⟩
    by_cases hzero : offset = 0
    · -- the file may be the first one, wherever that begins
      subst hzero
      have := wrote_le_max hc (mem_of_findMapedFileByOffset hf)
      change (0 : ℤ) < _
      omega
    · rw [decide_eq_false hzero] at hf
      obtain ⟨hmem, hfrom, hlt⟩ := mem_of_find hc hf
      rw [mod_eq_sub hc hmem hfrom hlt] at hle
      have := wrote_le_max hc hmem
      omega

/-- Where the log has a byte, what is read are the bytes there. -/
lemma getMessage_stands (hc : Chained q) (hm : Mapped q) {b : UInt8}
    (hb : byteAt q offset.toInt.toNat = some b) (h : getMessage q offset size = .ok (some bs)) :
    StandsAt q offset.toInt.toNat bs ∧ bs.length = size.toInt.toNat := by
  obtain ⟨-, -, f, hf, hle, rfl⟩ := getMessage_some h
  obtain ⟨g, hmem, hfrom, hg⟩ := (byteAt_eq_some_iff hc hm).mp hb
  have hlen := (List.getElem?_eq_some_iff.mp hg).1
  rw [length_written hc hm hmem] at hlen
  have hlt : offset.toInt.toNat < g.fileFromOffset + q.mapedFileSize := by
    have := wrote_le hc hmem
    omega
  rw [find_of_mem hc hmem hfrom hlt, Option.some.injEq] at hf
  subst hf
  rw [mod_eq_sub hc hmem hfrom hlt] at hle ⊢
  have hfull := length_written hc hm hmem
  rw [written, List.length_take] at hfull
  refine ⟨fun i b hi => ?_, ?_⟩
  · have hi1 : i < size.toInt.toNat := by
      have := (List.getElem?_eq_some_iff.mp hi).1
      rw [List.length_take] at this
      omega
    rw [List.getElem?_take_of_lt hi1, List.getElem?_drop] at hi
    refine (byteAt_eq_some_iff hc hm).mpr ⟨g, hmem, by omega, ?_⟩
    rw [written, List.getElem?_take_of_lt (by omega), ← hi]
    congr 1
    omega
  · rw [List.length_take, List.length_drop]
    omega

/-- Where the log has a byte, the message that is found was decoded from the bytes there. -/
lemma lookMessageByOffset_decoded (hc : Chained q) (hm : Mapped q) {b : UInt8}
    (hb : byteAt q offset.toInt.toNat = some b)
    (h : lookMessageByOffset q offset = .ok (some m)) :
    ∃ head size rest bs, StandsAt q offset.toInt.toNat head ∧ head.length = 4 ∧
      getInt.run head = some (size, rest) ∧ StandsAt q offset.toInt.toNat bs ∧
      bs.length = size.toInt.toNat ∧ decode bs = some m := by
  unfold lookMessageByOffset at h
  split at h
  · exact absurd h (by simp)
  · exact absurd h (by simp)
  · next head hhead =>
    split at h
    · exact absurd h (by simp)
    · next size rest hsize =>
      obtain ⟨hstands, hlen⟩ := getMessage_stands hc hm hb hhead
      cases hread : getMessage q offset size with
      | error e => rw [hread] at h; exact absurd h (by simp [Except.map])
      | ok r =>
        cases r with
        | none => rw [hread] at h; exact absurd h (by simp [Except.map])
        | some bs =>
          rw [hread] at h
          simp only [Except.map, Option.bind_some, Except.ok.injEq] at h
          obtain ⟨hbs, hsizeof⟩ := getMessage_stands hc hm hb hread
          exact ⟨head, size, rest, bs, hstands, hlen, hsize, hbs, hsizeof, h⟩

lemma getInt_rest {a : Int32} {rest : Bytes} (h : getInt.run bs = some (a, rest)) :
    rest = bs.drop 4 := by
  rw [getInt_eq_some h, List.drop_left' (length_putInt a)]

/-- The decoder finds the size at the beginning, and the queue offset at byte 20. -/
lemma decode_header (h : decode bs = some m) :
    (∃ rest, getInt.run bs = some (m.storeSize, rest)) ∧
      ∃ rest, getLong.run (bs.drop 20) = some (m.queueOffset, rest) := by
  obtain ⟨⟨m', left⟩, hrun, rfl⟩ := Option.map_eq_some_iff.mp h
  obtain ⟨storeSize, b₁, h₁, hrun⟩ := Reader.run_bind_eq_some hrun
  obtain ⟨magicCode, b₂, h₂, hrun⟩ := Reader.run_bind_eq_some hrun
  obtain ⟨bodyCRC, b₃, h₃, hrun⟩ := Reader.run_bind_eq_some hrun
  obtain ⟨queueId, b₄, h₄, hrun⟩ := Reader.run_bind_eq_some hrun
  obtain ⟨flag, b₅, h₅, hrun⟩ := Reader.run_bind_eq_some hrun
  obtain ⟨queueOffset, b₆, h₆, hrun⟩ := Reader.run_bind_eq_some hrun
  obtain ⟨commitLogOffset, b₇, -, hrun⟩ := Reader.run_bind_eq_some hrun
  obtain ⟨sysFlag, b₈, -, hrun⟩ := Reader.run_bind_eq_some hrun
  obtain ⟨bornTimestamp, b₉, -, hrun⟩ := Reader.run_bind_eq_some hrun
  obtain ⟨bornHost, b₁₀, -, hrun⟩ := Reader.run_bind_eq_some hrun
  obtain ⟨storeTimestamp, b₁₁, -, hrun⟩ := Reader.run_bind_eq_some hrun
  obtain ⟨storeHost, b₁₂, -, hrun⟩ := Reader.run_bind_eq_some hrun
  obtain ⟨reconsumeTimes, b₁₃, -, hrun⟩ := Reader.run_bind_eq_some hrun
  obtain ⟨preparedTransactionOffset, b₁₄, -, hrun⟩ := Reader.run_bind_eq_some hrun
  obtain ⟨body, b₁₅, -, hrun⟩ := Reader.run_bind_eq_some hrun
  obtain ⟨topic, b₁₆, -, hrun⟩ := Reader.run_bind_eq_some hrun
  obtain ⟨properties, b₁₇, -, hrun⟩ := Reader.run_bind_eq_some hrun
  simp only [Reader.run_pure, Option.some.injEq, Prod.mk.injEq] at hrun
  have hdrop : b₅ = bs.drop 20 := by
    rw [getInt_rest h₅, getInt_rest h₄, getInt_rest h₃, getInt_rest h₂, getInt_rest h₁]
    simp only [List.drop_drop]
  rw [← hrun.1, ← hdrop]
  exact ⟨⟨b₁, h₁⟩, b₆, h₆⟩

/-! ### The queue offset of a record -/

/-- A record with the queue offset begins there. -/
def QueueOffsetAt (q : MapedFileQueue Bytes) (o : ℕ) (queueOffset : Int64) : Prop :=
  ∃ front : Bytes, front.length = 20 ∧ StandsAt q o (front ++ putLong queueOffset)

lemma QueueOffsetAt.mono {q' : MapedFileQueue Bytes} {o : ℕ} {queueOffset : Int64}
    (h : QueueOffsetAt q o queueOffset) (hag : Agrees q q') : QueueOffsetAt q' o queueOffset :=
  h.imp fun _ ⟨hlen, hst⟩ => ⟨hlen, hst.mono hag⟩

lemma queueOffsetAt_wrote {m : MessageExtBrokerInner} {log log' : Log}
    {result : AppendMessageResult} (h : WroteMessage m log log' result) :
    QueueOffsetAt log'.mapedFileQueue result.wroteOffset result.logicsOffset := by
  obtain ⟨bornHost, storeHost, -, -, hst, -⟩ := h.record
  have hprefix : putInt (Int32.ofNat (recordSize m)) ++ putInt MessageMagicCode ++
      putInt m.bodyCRC ++ putInt m.queueId ++ putInt m.flag ++ putLong result.logicsOffset <+:
      recordBytes m (Int32.ofNat (recordSize m)) bornHost storeHost result.logicsOffset
        result.wroteOffset := by
    rw [recordBytes_eq, fixedBytes]
    simp only [List.append_assoc, List.prefix_append_right_inj, List.prefix_append]
  obtain ⟨rest, hrest⟩ := hprefix
  refine ⟨putInt (Int32.ofNat (recordSize m)) ++ putInt MessageMagicCode ++ putInt m.bodyCRC ++
    putInt m.queueId ++ putInt m.flag, by simp, fun i b hi => hst i b ?_⟩
  rw [← hrest, List.getElem?_append_left (List.getElem?_eq_some_iff.mp hi).1, hi]

lemma lookMessageByOffset_queueOffset (hc : Chained q) (hm : Mapped q) {queueOffset : Int64}
    (hq : QueueOffsetAt q offset.toInt.toNat queueOffset)
    (h : lookMessageByOffset q offset = .ok (some m)) : m.queueOffset = queueOffset := by
  obtain ⟨front, hlen, hst⟩ := hq
  cases front with
  | nil => exact absurd hlen (by decide)
  | cons b front =>
    obtain ⟨-, -, -, bs, -, -, -, hbs, -, hdec⟩ :=
      lookMessageByOffset_decoded hc hm (b := b) (hst 0 b rfl) h
    obtain ⟨-, rest, hlong⟩ := decode_header hdec
    obtain ⟨used, mid, hused, hmid⟩ := Reader.run_bind_eq_some hlong
    obtain ⟨hdrop, hlen'⟩ := getBytes_eq_some hused
    -- the eight bytes there are the ones that were written
    have hput : used = putLong queueOffset := by
      refine List.ext_getElem? fun i => ?_
      by_cases hi : i < 8
      · obtain ⟨x, h1⟩ : ∃ x, (putLong queueOffset)[i]? = some x :=
          ⟨_, List.getElem?_eq_getElem (by simpa using hi)⟩
        obtain ⟨y, h2⟩ : ∃ y, used[i]? = some y := ⟨_, List.getElem?_eq_getElem (by omega)⟩
        have h3 := hst (20 + i) _ ((List.getElem?_append_right (by omega)).trans
          (by rw [hlen, Nat.add_sub_cancel_left]; exact h1))
        have h4 := hbs (20 + i) _ (by
          rw [← List.getElem?_drop, hdrop, List.getElem?_append_left (by omega)]
          exact h2)
        rw [h1, h2, ← h3, ← h4]
      · rw [List.getElem?_eq_none (by omega), List.getElem?_eq_none (by simp; omega)]
    have hread := getLong_putLong queueOffset mid
    rw [← hput, ← hdrop, hlong] at hread
    simp only [Option.some.injEq, Prod.mk.injEq] at hread
    exact hread.1

end Found

/-! ### A record, read back -/

/-- What a reader finds of a message. -/
structure FoundAs (m : MessageExtBrokerInner) (msgExt : MessageExt) : Prop where
  topic : msgExt.topic = m.topic
  flag : msgExt.flag = m.flag
  properties : msgExt.properties = storedProps m
  body : msgExt.body = if m.bodyBytes = [] then none else m.body
  sysFlag : msgExt.sysFlag = m.sysFlag
  reconsumeTimes : msgExt.reconsumeTimes = m.reconsumeTimes

/-- The message was decoded from a record of the other. -/
def DecodedFrom (m : MessageExtBrokerInner) (msgExt : MessageExt) : Prop :=
  ∃ len bornHost storeHost queueOffset physicOffset, bornHost.length = 8 ∧ storeHost.length = 8 ∧
    decode (recordBytes m len bornHost storeHost queueOffset physicOffset) = some msgExt

section Record

variable {m : MessageExtBrokerInner}

lemma rest_of_decodeHost {host r rest : Bytes} {h : InetSocketAddress} (hhost : host.length = 8)
    (hrun : decodeHost.run (host ++ r) = some (h, rest)) : rest = r := by
  obtain ⟨address, mid, haddress, hrun⟩ := Reader.run_bind_eq_some hrun
  obtain ⟨port, mid', hport, hrun⟩ := Reader.run_bind_eq_some hrun
  have hrest : rest = mid' := by
    split at hrun
    · split at hrun
      · simp only [Reader.run_pure, Option.some.injEq, Prod.mk.injEq] at hrun
        exact hrun.2.symm
      · cases hrun
    · cases hrun
  obtain ⟨heq, hlen⟩ := getBytes_eq_some haddress
  have hmid : mid = (host ++ r).drop 4 := by rw [heq, List.drop_left' hlen]
  rw [hrest, getInt_rest hport, hmid, List.drop_drop, List.drop_left' hhost]

lemma toByteArr_bodyBytes (hne : m.bodyBytes ≠ []) : toByteArr m.bodyBytes = m.body := by
  unfold MessageExtBrokerInner.bodyBytes at *
  cases hb : m.body with
  | none => rw [hb] at hne; exact absurd rfl hne
  | some b =>
    change toByteArr b.val = some b
    rw [toByteArr, dif_pos b.property]

lemma decodeBody_append (r : Bytes) :
    decodeBody.run (putInt (Int32.ofNat m.bodyBytes.length) ++ (m.bodyBytes ++ r)) =
      some (if m.bodyBytes = [] then none else m.body, r) := by
  have hint : m.bodyBytes.length < 2 ^ 31 := by
    unfold MessageExtBrokerInner.bodyBytes
    cases m.body with
    | none => exact Nat.two_pow_pos 31
    | some b => exact b.property
  have hto : (Int32.ofNat m.bodyBytes.length).toInt = m.bodyBytes.length :=
    Int32.toInt_ofNat_of_lt hint
  rw [decodeBody, Reader.run_bind_of_some (getInt_putInt _ _), hto]
  by_cases hnil : m.bodyBytes = []
  · simp [hnil]
  · have hpos : (0 : ℤ) < m.bodyBytes.length := by
      have := List.length_pos_of_ne_nil hnil
      omega
    rw [if_pos hpos, if_neg hnil, Int.toNat_natCast,
      Reader.run_bind_of_some (getBytes_append rfl _), Reader.run_pure, toByteArr_bodyBytes hnil]

lemma getArray_append {a : Bytes} {n : ℤ} (h : (a.length : ℤ) = n) (r : Bytes) :
    (getArray n).run (a ++ r) = some (a, r) := by
  rw [getArray, if_neg (by omega), getBytes_append (by omega)]

/-- A topic of at most 127 bytes, behind the byte that says how many. -/
lemma decodeTopic_utf8Encode {topic : Text} (hfit : (utf8Encode topic).length ≤ 127) (r : Bytes) :
    decodeTopic.run ([UInt8.ofNat (utf8Encode topic).length] ++ (utf8Encode topic ++ r)) =
      some (topic, r) := by
  rw [decodeTopic, Reader.run_bind_of_some (getByte_ofNat _ _), toInt_byte hfit,
    Reader.run_bind_of_some (getArray_append rfl _), Reader.run_pure, utf8Decode_encode]

/-- A properties string of at most 32767 bytes, behind its length; the empty one is skipped. -/
lemma decodeProperties_utf8Encode {s : Text} (hfit : (utf8Encode s).length ≤ 32767) (r : Bytes) :
    decodeProperties.run (putShort (utf8Encode s).length ++ (utf8Encode s ++ r)) =
      some (string2messageProperties s, r) := by
  rw [decodeProperties, Reader.run_bind_of_some (getShort_putShort _ _), toInt_short hfit]
  by_cases hnil : utf8Encode s = []
  · have hempty : string2messageProperties [] = Props.empty := by
      simp [string2messageProperties, split]
    rw [hnil, utf8Encode_eq_nil.mp hnil, hempty]
    simp
  · have hpos : (0 : ℤ) < (utf8Encode s).length := by
      have := List.length_pos_of_ne_nil hnil
      omega
    rw [if_pos hpos, Reader.run_bind_of_some (getArray_append rfl _), Reader.run_pure,
      utf8Decode_encode]

lemma decodeTopic_append (hfit : m.topicData.length ≤ 127) (r : Bytes) :
    decodeTopic.run ([UInt8.ofNat m.topicData.length] ++ (m.topicData ++ r)) =
      some (m.topic, r) :=
  decodeTopic_utf8Encode hfit r

lemma decodeProperties_append (hfit : m.propertiesData.length ≤ 32767) (r : Bytes) :
    decodeProperties.run (putShort m.propertiesData.length ++ (m.propertiesData ++ r)) =
      some (storedProps m, r) := by
  have hdata : m.propertiesData = utf8Encode (m.propertiesString.getD []) := by
    rw [MessageExtBrokerInner.propertiesData]
    cases m.propertiesString with
    | none => rfl
    | some s => rfl
  rw [hdata] at hfit ⊢
  exact decodeProperties_utf8Encode hfit r

lemma read_eq {α : Type} {r : Reader α} {bs rest rest' : Bytes} {a a' : α}
    (h : r.run bs = some (a, rest)) (h' : r.run bs = some (a', rest')) : a = a' ∧ rest = rest' := by
  rw [h, Option.some.injEq, Prod.mk.injEq] at h'
  exact h'

/-- **A record that fits is read back.** -/
theorem foundAs_of_decodedFrom {msgExt : MessageExt} (hfit : Fits m) (h : DecodedFrom m msgExt) :
    FoundAs m msgExt := by
  obtain ⟨len, bornHost, storeHost, queueOffset, physicOffset, hborn, hstore, h⟩ := h
  obtain ⟨⟨msgExt', left⟩, hrun, rfl⟩ := Option.map_eq_some_iff.mp h
  rw [recordBytes_eq, fixedBytes, textBytes] at hrun
  simp only [List.append_assoc] at hrun
  obtain ⟨storeSize, b₁, h₁, hrun⟩ := Reader.run_bind_eq_some hrun
  obtain ⟨magicCode, b₂, h₂, hrun⟩ := Reader.run_bind_eq_some hrun
  obtain ⟨bodyCRC, b₃, h₃, hrun⟩ := Reader.run_bind_eq_some hrun
  obtain ⟨queueId, b₄, h₄, hrun⟩ := Reader.run_bind_eq_some hrun
  obtain ⟨flag, b₅, h₅, hrun⟩ := Reader.run_bind_eq_some hrun
  obtain ⟨queueOffset', b₆, h₆, hrun⟩ := Reader.run_bind_eq_some hrun
  obtain ⟨commitLogOffset, b₇, h₇, hrun⟩ := Reader.run_bind_eq_some hrun
  obtain ⟨sysFlag, b₈, h₈, hrun⟩ := Reader.run_bind_eq_some hrun
  obtain ⟨bornTimestamp, b₉, h₉, hrun⟩ := Reader.run_bind_eq_some hrun
  obtain ⟨born, b₁₀, h₁₀, hrun⟩ := Reader.run_bind_eq_some hrun
  obtain ⟨storeTimestamp, b₁₁, h₁₁, hrun⟩ := Reader.run_bind_eq_some hrun
  obtain ⟨store, b₁₂, h₁₂, hrun⟩ := Reader.run_bind_eq_some hrun
  obtain ⟨reconsumeTimes, b₁₃, h₁₃, hrun⟩ := Reader.run_bind_eq_some hrun
  obtain ⟨preparedTransactionOffset, b₁₄, h₁₄, hrun⟩ := Reader.run_bind_eq_some hrun
  obtain ⟨body, b₁₅, h₁₅, hrun⟩ := Reader.run_bind_eq_some hrun
  obtain ⟨topic, b₁₆, h₁₆, hrun⟩ := Reader.run_bind_eq_some hrun
  obtain ⟨properties, b₁₇, h₁₇, hrun⟩ := Reader.run_bind_eq_some hrun
  simp only [Reader.run_pure, Option.some.injEq, Prod.mk.injEq] at hrun
  -- each field is the one that was written there
  obtain ⟨-, rfl⟩ := read_eq h₁ (getInt_putInt _ _)
  obtain ⟨-, rfl⟩ := read_eq h₂ (getInt_putInt _ _)
  obtain ⟨-, rfl⟩ := read_eq h₃ (getInt_putInt _ _)
  obtain ⟨-, rfl⟩ := read_eq h₄ (getInt_putInt _ _)
  obtain ⟨rfl, rfl⟩ := read_eq h₅ (getInt_putInt _ _)
  obtain ⟨-, rfl⟩ := read_eq h₆ (getLong_putLong _ _)
  obtain ⟨-, rfl⟩ := read_eq h₇ (getLong_putLong _ _)
  obtain ⟨rfl, rfl⟩ := read_eq h₈ (getInt_putInt _ _)
  obtain ⟨-, rfl⟩ := read_eq h₉ (getLong_putLong _ _)
  obtain rfl := rest_of_decodeHost hborn h₁₀
  obtain ⟨-, rfl⟩ := read_eq h₁₁ (getLong_putLong _ _)
  obtain rfl := rest_of_decodeHost hstore h₁₂
  obtain ⟨rfl, rfl⟩ := read_eq h₁₃ (getInt_putInt _ _)
  obtain ⟨-, rfl⟩ := read_eq h₁₄ (getLong_putLong _ _)
  obtain ⟨rfl, rfl⟩ := read_eq h₁₅ (decodeBody_append _)
  obtain ⟨rfl, rfl⟩ := read_eq h₁₆ (decodeTopic_append hfit.topic _)
  have hprops := decodeProperties_append hfit.properties []
  rw [List.append_nil] at hprops
  obtain ⟨rfl, -⟩ := read_eq h₁₇ hprops
  rw [← hrun.1]
  exact ⟨rfl, rfl, rfl, rfl, rfl, rfl⟩

/-- Bytes that stand at one place begin alike. -/
lemma prefix_of_standsAt {q : MapedFileQueue Bytes} {o : ℕ} {a b : Bytes} (ha : StandsAt q o a)
    (hb : StandsAt q o b) (hle : a.length ≤ b.length) : a <+: b := by
  have heq : a = b.take a.length := by
    refine List.ext_getElem? fun i => ?_
    by_cases hi : i < a.length
    · have h1 : a[i]? = some a[i] := List.getElem?_eq_getElem hi
      obtain ⟨y, h2⟩ : ∃ y, b[i]? = some y := ⟨_, List.getElem?_eq_getElem (by omega)⟩
      have h3 := (ha i _ h1).symm.trans (hb i _ h2)
      rw [List.getElem?_take_of_lt hi, h1, h2, h3]
    · rw [List.getElem?_eq_none (by omega), List.getElem?_eq_none (by rw [List.length_take]; omega)]
  exact heq ▸ List.take_prefix _ _

/-- **A message that was written is found again.** -/
theorem lookMessageByOffset_wrote {q : MapedFileQueue Bytes} {log log' : Log} {offset : Int64}
    {result : AppendMessageResult} {msgExt : MessageExt} (hc : Chained q) (hm : Mapped q)
    (hwrote : WroteMessage m log log' result) (hag : Agrees log'.mapedFileQueue q)
    (hoff : offset.toInt = result.wroteOffset)
    (h : lookMessageByOffset q offset = .ok (some msgExt)) : DecodedFrom m msgExt := by
  obtain ⟨bornHost, storeHost, hborn, hstore, hst, -⟩ := hwrote.record
  replace hst := hst.mono hag
  have hsize : (Int32.ofNat (recordSize m)).toInt = recordSize m :=
    Int32.toInt_ofNat_of_lt hwrote.size_lt
  have hlong : (recordBytes m (Int32.ofNat (recordSize m)) bornHost storeHost
      result.logicsOffset result.wroteOffset).length = recordSize m :=
    length_recordBytes hborn hstore
  generalize hrecord : recordBytes m (Int32.ofNat (recordSize m)) bornHost storeHost
    result.logicsOffset result.wroteOffset = record at hst hlong
  have hfront : putInt (Int32.ofNat (recordSize m)) <+: record := by
    rw [← hrecord, recordBytes_eq]
    exact List.prefix_append _ _
  have hoff' : result.wroteOffset = offset.toInt.toNat := by omega
  rw [hoff'] at hst
  have hpos : 0 < record.length := by
    rw [hlong, recordSize]
    omega
  obtain ⟨head, size, rest, bs, hhead, h4, hread, hbs, hlen, hdec⟩ :=
    lookMessageByOffset_decoded hc hm (hst 0 _ (List.getElem?_eq_getElem hpos)) h
  -- the size that is read is the one of the record
  have hfour : head = putInt (Int32.ofNat (recordSize m)) := by
    have hle : head.length ≤ record.length := by
      rw [hlong, recordSize, h4]
      omega
    have hpre := List.prefix_of_prefix_length_le (prefix_of_standsAt hhead hst hle) hfront
      (by rw [h4, length_putInt])
    exact hpre.eq_of_length (by rw [h4, length_putInt])
  have hsame := getInt_putInt (Int32.ofNat (recordSize m)) []
  rw [List.append_nil, ← hfour] at hsame
  obtain ⟨rfl, -⟩ := read_eq hread hsame
  have heq : bs = record := by
    have hl : bs.length = record.length := by rw [hlen, hlong, hsize, Int.toNat_natCast]
    exact (prefix_of_standsAt hbs hst hl.le).eq_of_length hl
  rw [heq, ← hrecord] at hdec
  exact ⟨_, bornHost, storeHost, _, _, hborn, hstore, hdec⟩

end Record

end CloudMQ.MessageDecoder
