import CloudMQ.Record

/-!
Reading a record back.

The lengths of topic and properties are narrowed to a `byte` and a `short`. As long as they fit,
the reader consumes exactly the record and returns the fields that were written. A topic of
more than 127 bytes is refused or read short, and properties of more than 32767 bytes leave
bytes of the record unread.
-/

namespace CloudMQ.Codec

open CloudMQ.Buffer CloudMQ.Utf8 CloudMQ.Strings CloudMQ.Message CloudMQ.Record

/-- The properties a reader finds in the record. -/
def storedProps (m : MessageExtBrokerInner) : Props :=
  string2messageProperties (m.propertiesString.getD [])

/-- The keys a reader finds in the record; without properties it answers the empty string. -/
def storedKeys (m : MessageExtBrokerInner) : Option Text :=
  if m.propertiesData = [] then some [] else (storedProps m).get PROPERTY_KEYS

/-- Topic and properties fit the length fields of the record. -/
structure Fits (m : MessageExtBrokerInner) : Prop where
  topic : m.topicData.length ≤ 127
  properties : m.propertiesData.length ≤ 32767

/-- A delay level in a record of the schedule topic is a number, and the reading store has a
schedule service to turn it into a time. -/
def DelayReadable (svc : Option ScheduleMessageService) (m : MessageExtBrokerInner) : Prop :=
  m.topic = SCHEDULE_TOPIC → ∀ t, (storedProps m).get PROPERTY_DELAY_TIME_LEVEL = some t →
    (parseInt t).isSome ∧ svc.isSome

lemma storedProps_of_nil {m : MessageExtBrokerInner} (h : m.propertiesData = []) :
    storedProps m = Props.empty := by
  have hs : m.propertiesString.getD [] = [] := by
    cases hp : m.propertiesString with
    | none => rfl
    | some s =>
      rw [MessageExtBrokerInner.propertiesData, hp] at h
      exact utf8Encode_eq_nil.mp h
  rw [storedProps, hs]
  simp [string2messageProperties, split]

lemma utf8Decode_propertiesData (m : MessageExtBrokerInner) :
    utf8Decode m.propertiesData = m.propertiesString.getD [] := by
  cases hp : m.propertiesString with
  | none => simp [MessageExtBrokerInner.propertiesData, hp, utf8Decode, decodeSkip]
  | some s => simp [MessageExtBrokerInner.propertiesData, hp, utf8Decode_encode]

/-- The tags code a reader computes for the record, when it does not fail. -/
def storedTagsCode (svc : Option ScheduleMessageService) (m : MessageExtBrokerInner) :
    Option Int64 :=
  readTagsCode svc m.topic m.sysFlag m.storeTimestamp (storedProps m)

lemma storedTagsCode_of_nil {svc : Option ScheduleMessageService} {m : MessageExtBrokerInner}
    (h : m.propertiesData = []) : storedTagsCode svc m = some 0 := by
  rw [storedTagsCode, storedProps_of_nil h]
  rfl

lemma storedTagsCode_isSome {svc : Option ScheduleMessageService} {m : MessageExtBrokerInner} :
    (storedTagsCode svc m).isSome ↔ DelayReadable svc m := by
  unfold storedTagsCode readTagsCode DelayReadable
  cases hd : (storedProps m).get PROPERTY_DELAY_TIME_LEVEL with
  | none => simp
  | some t =>
    by_cases ht : SCHEDULE_TOPIC = m.topic
    · simp only [if_pos ht, Option.some.injEq, forall_eq']
      cases hp : parseInt t with
      | none => simp [ht.symm]
      | some l => cases svc <;> simp [ht.symm]
    · have ht' : m.topic ≠ SCHEDULE_TOPIC := fun h => ht h.symm
      simp [if_neg ht, ht']

/-! ### The layout, nested to the right -/

/-- Fields 3 to 14. -/
def fixedBytes (m : MessageExtBrokerInner) (bornHost storeHost : Bytes) (queueOffset : Int64)
    (physicOffset : ℕ) : Bytes :=
  putInt m.bodyCRC ++ (putInt m.queueId ++ (putInt m.flag ++ (putLong queueOffset ++
    (putLong (Int64.ofNat physicOffset) ++ (putInt m.sysFlag ++ (putLong m.bornTimestamp ++
      (bornHost ++ (putLong m.storeTimestamp ++ (storeHost ++ (putInt m.reconsumeTimes ++
        putLong m.preparedTransactionOffset))))))))))

/-- Fields 16 and 17. -/
def textBytes (m : MessageExtBrokerInner) : Bytes :=
  [UInt8.ofNat m.topicData.length] ++ (m.topicData ++
    (putShort m.propertiesData.length ++ m.propertiesData))

lemma recordBytes_eq (m : MessageExtBrokerInner) (len : Int32) (bh sh : Bytes) (qo : Int64)
    (p : ℕ) :
    recordBytes m len bh sh qo p = putInt len ++ (putInt MessageMagicCode ++
      (fixedBytes m bh sh qo p ++ (putInt (Int32.ofNat m.bodyBytes.length) ++
        (m.bodyBytes ++ textBytes m)))) := by
  unfold recordBytes fixedBytes textBytes
  simp only [List.append_assoc]

lemma length_textBytes (m : MessageExtBrokerInner) :
    (textBytes m).length = 3 + m.topicData.length + m.propertiesData.length := by
  simp only [textBytes, List.length_singleton, List.length_append, length_putShort]
  omega

section Layout

variable {m : MessageExtBrokerInner} {len : Int32} {bh sh : Bytes} {qo : Int64} {p cap : ℕ}

lemma length_fixedBytes (hb : bh.length = 8) (hs : sh.length = 8) :
    (fixedBytes m bh sh qo p).length = 76 := by
  simp [fixedBytes, hb, hs]

lemma length_recordBytes (hb : bh.length = 8) (hs : sh.length = 8) :
    (recordBytes m len bh sh qo p).length = recordSize m := by
  rw [recordBytes_eq]
  simp only [List.length_append, length_putInt, length_fixedBytes hb hs, length_textBytes,
    recordSize]
  omega

/-- What the reader finds in fields 3 to 14. -/
def fixedOf (m : MessageExtBrokerInner) (qo : Int64) (p : ℕ) : Fixed where
  bodyCRC := m.bodyCRC
  queueId := m.queueId
  flag := m.flag
  queueOffset := qo
  physicOffset := Int64.ofNat p
  sysFlag := m.sysFlag
  bornTimeStamp := m.bornTimestamp
  storeTimestamp := m.storeTimestamp
  reconsumeTimes := m.reconsumeTimes
  preparedTransactionOffset := m.preparedTransactionOffset

lemma getInto_append {a : Bytes} {n : ℤ} (h : (a.length : ℤ) = n) (hcap : n ≤ cap) (r : Bytes) :
    (getInto cap n).run (a ++ r) = some (a, r) := by
  have hn : a.length = n.toNat := by omega
  rw [getInto, if_neg (by omega), getBytes_append hn]

/-- The bytes fields 3 to 14 are read from. -/
def fieldBytes (f : Fixed) (bornHost storeHost : Bytes) : Bytes :=
  putInt f.bodyCRC ++ (putInt f.queueId ++ (putInt f.flag ++ (putLong f.queueOffset ++
    (putLong f.physicOffset ++ (putInt f.sysFlag ++ (putLong f.bornTimeStamp ++
      (bornHost ++ (putLong f.storeTimestamp ++ (storeHost ++ (putInt f.reconsumeTimes ++
        putLong f.preparedTransactionOffset))))))))))

lemma length_fieldBytes (f : Fixed) (hb : bh.length = 8) (hs : sh.length = 8) :
    (fieldBytes f bh sh).length = 76 := by
  simp [fieldBytes, hb, hs]

lemma readFixed_fieldBytes (f : Fixed) (hb : bh.length = 8) (hs : sh.length = 8) (hcap : 8 ≤ cap)
    (r : Bytes) : (readFixed cap).run (fieldBytes f bh sh ++ r) = some (f, r) := by
  have h8 : (8 : ℤ) ≤ cap := by omega
  simp only [fieldBytes, List.append_assoc, readFixed]
  rw [Reader.run_bind_of_some (getInt_putInt _ _), Reader.run_bind_of_some (getInt_putInt _ _),
    Reader.run_bind_of_some (getInt_putInt _ _), Reader.run_bind_of_some (getLong_putLong _ _),
    Reader.run_bind_of_some (getLong_putLong _ _), Reader.run_bind_of_some (getInt_putInt _ _),
    Reader.run_bind_of_some (getLong_putLong _ _),
    Reader.run_bind_of_some (getInto_append (by rw [hb]; rfl) h8 _),
    Reader.run_bind_of_some (getLong_putLong _ _),
    Reader.run_bind_of_some (getInto_append (by rw [hs]; rfl) h8 _),
    Reader.run_bind_of_some (getInt_putInt _ _), Reader.run_bind_of_some (getLong_putLong _ _),
    Reader.run_pure]

lemma readFixed_append (hb : bh.length = 8) (hs : sh.length = 8) (hcap : 8 ≤ cap) (r : Bytes) :
    (readFixed cap).run (fixedBytes m bh sh qo p ++ r) = some (fixedOf m qo p, r) := by
  have hfields : fixedBytes m bh sh qo p = fieldBytes (fixedOf m qo p) bh sh := rfl
  rw [hfields]
  exact readFixed_fieldBytes (fixedOf m qo p) hb hs hcap r

/-- The body is skipped or checked, and the CRC of the message is its own. -/
lemma readBodyPart_append {checkCRC readBody : Bool} {body : Bytes} {crc : Int32}
    (hlen : body.length ≤ cap) (hint : body.length < 2 ^ 31)
    (hcrc : body ≠ [] → crc = crc32 body) (r : Bytes) :
    (readBodyPart cap checkCRC readBody crc).run
      (putInt (Int32.ofNat body.length) ++ (body ++ r)) = some (true, r) := by
  have hto : (Int32.ofNat body.length).toInt = body.length := Int32.toInt_ofNat_of_lt hint
  rw [readBodyPart, Reader.run_bind_of_some (getInt_putInt _ _), hto]
  by_cases hnil : body = []
  · subst hnil
    simp
  · have hpos : (0 : ℤ) < body.length := by
      have := List.length_pos_of_ne_nil hnil
      omega
    rw [if_pos hpos]
    cases readBody with
    | true =>
      rw [if_pos rfl, Reader.run_bind_of_some (getInto_append rfl (by omega) _), Reader.run_pure,
        hcrc hnil]
      simp
    | false =>
      rw [if_neg (by simp), Int.toNat_natCast,
        Reader.run_bind_of_some (getBytes_append rfl _), Reader.run_pure]

lemma toInt_byte {n : ℕ} (h : n ≤ 127) : (BitVec.ofNat 8 n).toInt = n := by
  rw [BitVec.toInt_eq_toNat_of_lt] <;> simp [Nat.mod_eq_of_lt (show n < 256 by omega)]
  omega

lemma toInt_short {n : ℕ} (h : n ≤ 32767) : (BitVec.ofNat 16 n).toInt = n := by
  rw [BitVec.toInt_eq_toNat_of_lt] <;> simp [Nat.mod_eq_of_lt (show n < 65536 by omega)]
  omega

lemma readTopic_append (hfit : m.topicData.length ≤ 127) (hcap : m.topicData.length ≤ cap)
    (r : Bytes) :
    (readTopic cap).run ([UInt8.ofNat m.topicData.length] ++ (m.topicData ++ r)) =
      some (m.topic, r) := by
  rw [readTopic, Reader.run_bind_of_some (getByte_ofNat _ _), toInt_byte hfit,
    Reader.run_bind_of_some (getInto_append rfl (by omega) _), Reader.run_pure,
    MessageExtBrokerInner.topicData, utf8Decode_encode]

lemma readProperties_append {svc : Option ScheduleMessageService}
    (hfit : m.propertiesData.length ≤ 32767) (hcap : m.propertiesData.length ≤ cap) (r : Bytes) :
    (readProperties cap svc m.topic (fixedOf m qo p)).run
        (putShort m.propertiesData.length ++ (m.propertiesData ++ r)) =
      (storedTagsCode svc m).map fun tagsCode => ((tagsCode, storedKeys m), r) := by
  rw [readProperties, Reader.run_bind_of_some (getShort_putShort _ _), toInt_short hfit]
  by_cases hnil : m.propertiesData = []
  · rw [storedTagsCode_of_nil hnil, storedKeys, if_pos hnil, hnil]
    simp
  · have hpos : (0 : ℤ) < m.propertiesData.length := by
      have := List.length_pos_of_ne_nil hnil
      omega
    rw [if_pos hpos, Reader.run_bind_of_some (getInto_append rfl (by omega) _), storedKeys,
      if_neg hnil]
    simp only [utf8Decode_propertiesData]
    change (Reader.ofOption (storedTagsCode svc m) >>= _).run r = _
    cases storedTagsCode svc m with
    | none => rw [Reader.run_bind_of_none (Reader.run_ofOption_none r)]; rfl
    | some tagsCode => rw [Reader.run_bind_of_some (Reader.run_ofOption_some _ r)]; rfl

/-- The record up to its body reads as written; what remains is topic and properties. -/
lemma readRecord_append {svc : Option ScheduleMessageService} {checkCRC readBody : Bool}
    (hb : bh.length = 8) (hs : sh.length = 8) (hcap : recordSize m ≤ cap)
    (hcrc : m.bodyBytes ≠ [] → m.bodyCRC = crc32 m.bodyBytes) (hint : m.bodyBytes.length < 2 ^ 31)
    (r : Bytes) :
    (readRecord cap svc checkCRC readBody).run (recordBytes m len bh sh qo p ++ r) =
      (readText cap svc len (fixedOf m qo p)).run (textBytes m ++ r) := by
  have hsize : 91 + m.bodyBytes.length ≤ cap := by unfold recordSize at hcap; omega
  rw [recordBytes_eq]
  simp only [List.append_assoc]
  rw [readRecord, Reader.run_bind_of_some (getInt_putInt _ _),
    Reader.run_bind_of_some (getInt_putInt _ _), if_pos rfl, readMessage,
    Reader.run_bind_of_some (readFixed_append hb hs (by omega) _),
    Reader.run_bind_of_some
      (readBodyPart_append (by omega) hint (by simpa [fixedOf] using hcrc) _), if_pos rfl]

/-- What the reader returns for a record whose lengths fit. -/
def requestOf (m : MessageExtBrokerInner) (len : Int32) (qo : Int64) (p : ℕ)
    (tagsCode : Int64) : DispatchRequest where
  topic := m.topic
  queueId := m.queueId
  commitLogOffset := Int64.ofNat p
  msgSize := len
  tagsCode := tagsCode
  storeTimestamp := m.storeTimestamp
  consumeQueueOffset := qo
  keys := storedKeys m
  sysFlag := m.sysFlag
  tranStateTableOffset := 0
  preparedTransactionOffset := m.preparedTransactionOffset
  producerGroup := none

lemma readText_append {svc : Option ScheduleMessageService} (hfit : Fits m)
    (hcap : recordSize m ≤ cap) (r : Bytes) :
    (readText cap svc len (fixedOf m qo p)).run (textBytes m ++ r) =
      (storedTagsCode svc m).map fun tagsCode => (requestOf m len qo p tagsCode, r) := by
  have hsize : m.topicData.length ≤ cap ∧ m.propertiesData.length ≤ cap := by
    unfold recordSize at hcap; omega
  rw [textBytes]
  simp only [List.append_assoc]
  rw [readText, Reader.run_bind_of_some (readTopic_append hfit.topic hsize.1 _)]
  have hp := @readProperties_append m qo p cap svc hfit.properties hsize.2 r
  cases ht : storedTagsCode svc m with
  | none =>
    rw [ht] at hp
    rw [Reader.run_bind_of_none hp]; rfl
  | some tagsCode =>
    rw [ht] at hp
    rw [Reader.run_bind_of_some hp]; rfl

/-- A topic of more than 127 bytes is not read back: its length byte is negative, or so small
that only the start of the topic is read. -/
lemma readText_long_topic {svc : Option ScheduleMessageService} {d : DispatchRequest}
    {r left : Bytes} (hlong : 127 < m.topicData.length)
    (h : (readText cap svc len (fixedOf m qo p)).run (textBytes m ++ r) = some (d, left)) :
    d.topic ≠ m.topic := by
  obtain ⟨topic, mid, htopic, h⟩ := Reader.run_bind_eq_some h
  obtain ⟨⟨tagsCode, keys⟩, mid', -, h⟩ := Reader.run_bind_eq_some h
  simp only [Reader.run_pure, Option.some.injEq, Prod.mk.injEq] at h
  rw [← h.1]
  change topic ≠ m.topic
  rw [textBytes] at htopic
  simp only [List.append_assoc] at htopic
  rw [readTopic, Reader.run_bind_of_some (getByte_ofNat _ _)] at htopic
  obtain ⟨bytes, mid'', hbytes, htopic⟩ := Reader.run_bind_eq_some htopic
  simp only [Reader.run_pure, Option.some.injEq, Prod.mk.injEq] at htopic
  rw [getInto] at hbytes
  split at hbytes
  · exact absurd hbytes (by simp)
  · next hrange =>
    -- the length byte is not negative, so it lost a multiple of 256
    have hmod : (BitVec.ofNat 8 m.topicData.length).toInt.toNat = m.topicData.length % 256 ∧
        m.topicData.length % 256 < 128 := by
      have hint : (BitVec.ofNat 8 m.topicData.length).toInt =
          if 2 * (m.topicData.length % 256) < 256 then (m.topicData.length % 256 : ℤ)
          else (m.topicData.length % 256 : ℤ) - 256 := by
        rw [BitVec.toInt_eq_toNat_cond]; simp
      push Not at hrange
      split at hint <;> omega
    have hk : m.topicData.length % 256 + 12 < m.topicData.length := by omega
    obtain ⟨hsplit, hlen⟩ := getBytes_eq_some hbytes
    have htake : bytes = m.topicData.take (m.topicData.length % 256) := by
      have := congrArg (List.take (m.topicData.length % 256)) hsplit
      rw [List.take_append_of_le_length (by omega), List.take_append_of_le_length (by omega),
        List.take_of_length_le (l := bytes) (by omega)] at this
      exact this.symm
    rw [← htopic.1, htake]
    exact utf8Decode_take_ne hk

/-- Properties of more than 32767 bytes leave bytes of the record unread. -/
lemma readText_long_properties {svc : Option ScheduleMessageService} {d : DispatchRequest}
    {r left : Bytes} (htopic : m.topicData.length ≤ 127) (hcap : recordSize m ≤ cap)
    (hlong : 32767 < m.propertiesData.length)
    (h : (readText cap svc len (fixedOf m qo p)).run (textBytes m ++ r) = some (d, left)) :
    r.length < left.length := by
  have hsize : m.topicData.length ≤ cap := by unfold recordSize at hcap; omega
  rw [textBytes] at h
  simp only [List.append_assoc] at h
  rw [readText, Reader.run_bind_of_some (readTopic_append htopic hsize _)] at h
  obtain ⟨⟨tagsCode, keys⟩, mid, hprops, h⟩ := Reader.run_bind_eq_some h
  simp only [Reader.run_pure, Option.some.injEq, Prod.mk.injEq] at h
  rw [← h.2]
  rw [readProperties, Reader.run_bind_of_some (getShort_putShort _ _)] at hprops
  have hint : (BitVec.ofNat 16 m.propertiesData.length).toInt =
      if 2 * (m.propertiesData.length % 65536) < 65536 then (m.propertiesData.length % 65536 : ℤ)
      else (m.propertiesData.length % 65536 : ℤ) - 65536 := by
    rw [BitVec.toInt_eq_toNat_cond]; simp
  split at hprops
  · -- a positive short: a multiple of 65536 was lost
    obtain ⟨bytes, mid', hbytes, hprops⟩ := Reader.run_bind_eq_some hprops
    obtain ⟨t, mid'', ht, hprops⟩ := Reader.run_bind_eq_some hprops
    have hmid : mid = mid' := by
      simp only [Reader.run_pure, Option.some.injEq, Prod.mk.injEq] at hprops
      cases hs : readTagsCode svc m.topic (fixedOf m qo p).sysFlag
          (fixedOf m qo p).storeTimestamp (string2messageProperties (utf8Decode bytes)) with
      | none => rw [hs] at ht; simp at ht
      | some c =>
        rw [hs] at ht
        simp only [Reader.run_ofOption_some, Option.some.injEq, Prod.mk.injEq] at ht
        exact hprops.2.symm.trans ht.2.symm
    rw [getInto] at hbytes
    split at hbytes
    · exact absurd hbytes (by simp)
    · obtain ⟨hsplit, hlen⟩ := getBytes_eq_some hbytes
      have := congrArg List.length hsplit
      simp only [List.length_append] at this
      subst hmid
      split at hint <;> omega
  · simp only [Reader.run_pure, Option.some.injEq, Prod.mk.injEq] at hprops
    rw [← hprops.2, List.length_append]
    omega

end Layout

end CloudMQ.Codec
