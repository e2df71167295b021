import CloudMQ.Codec

/-!
What `checkMessageAndReturnSize` answers on bytes nobody vouches for.

The size it answers is the first field of the record; the bytes it uses up are counted out by
the lengths of body, topic and properties. The two are not compared. They agree on every buffer
but the ones whose record can be read to its end and states some other size.
-/

namespace CloudMQ.RecordSizes

open CloudMQ.Buffer CloudMQ.Utf8 CloudMQ.Strings CloudMQ.Message CloudMQ.Record CloudMQ.Codec

/-! ### Records of any content -/

/-- A record as its own lengths lay it out. A negative length of body or properties counts as
none. -/
structure Layout where
  totalSize : Int32
  fields : Fixed
  bornHost : Bytes
  storeHost : Bytes
  bodyLen : Int32
  body : Bytes
  topic : Bytes
  propertiesLength : BitVec 16
  properties : Bytes
  length_bornHost : bornHost.length = 8
  length_storeHost : storeHost.length = 8
  length_body : (body.length : ℤ) = max bodyLen.toInt 0
  length_topic : topic.length ≤ 127
  length_properties : (properties.length : ℤ) = max propertiesLength.toInt 0

namespace Layout

/-- The body with its length. -/
def bodyPart (l : Layout) : Bytes := putInt l.bodyLen ++ l.body

def topicPart (l : Layout) : Bytes := [UInt8.ofNat l.topic.length] ++ l.topic

def propertiesPart (l : Layout) : Bytes := putShort l.propertiesLength.toNat ++ l.properties

def bytes (l : Layout) : Bytes :=
  putInt l.totalSize ++ (putInt MessageMagicCode ++ (fieldBytes l.fields l.bornHost l.storeHost ++
    (l.bodyPart ++ (l.topicPart ++ l.propertiesPart))))

lemma length_bytes (l : Layout) :
    l.bytes.length = 91 + l.body.length + l.topic.length + l.properties.length := by
  simp only [bytes, bodyPart, topicPart, propertiesPart, List.length_append, length_putInt,
    length_fieldBytes _ l.length_bornHost l.length_storeHost, length_putShort,
    List.length_singleton]
  omega

/-- The parts fit the array of `cap` bytes they are copied to, the CRC is the one of the body,
and the delay level of a record of the schedule topic is a number. A skipped body is neither
copied nor checked. -/
structure ReadThrough (cap : ℕ) (svc : Option ScheduleMessageService)
    (checkCRC readBody : Bool) (l : Layout) : Prop where
  body : readBody = true → l.body.length ≤ cap
  crc : readBody = true → checkCRC = true → l.body ≠ [] → crc32 l.body = l.fields.bodyCRC
  topic : l.topic.length ≤ cap
  properties : l.properties.length ≤ cap
  delay : l.properties ≠ [] → (readTagsCode svc (utf8Decode l.topic) l.fields.sysFlag
    l.fields.storeTimestamp (string2messageProperties (utf8Decode l.properties))).isSome

end Layout

section Read

variable {cap : ℕ} {svc : Option ScheduleMessageService} {checkCRC readBody : Bool} {l : Layout}

/-! ### A record that can be read through is -/

lemma readBodyPart_layout (h : l.ReadThrough cap svc checkCRC readBody) (r : Bytes) :
    (readBodyPart cap checkCRC readBody l.fields.bodyCRC).run (l.bodyPart ++ r) =
      some (true, r) := by
  have hlen := l.length_body
  rw [Layout.bodyPart, List.append_assoc, readBodyPart,
    Reader.run_bind_of_some (getInt_putInt _ _)]
  by_cases hpos : 0 < l.bodyLen.toInt
  · have hne : l.body ≠ [] := by
      intro hnil
      rw [hnil, List.length_nil] at hlen
      omega
    rw [if_pos hpos]
    cases readBody with
    | true =>
      have hcap := h.body rfl
      rw [if_pos rfl, Reader.run_bind_of_some (getInto_append (by omega) (by omega) _),
        Reader.run_pure]
      cases checkCRC with
      | true => rw [h.crc rfl rfl hne]; simp
      | false => simp
    | false =>
      rw [if_neg (by simp), Reader.run_bind_of_some (getBytes_append (by omega) _),
        Reader.run_pure]
  · have hnil : l.body = [] := List.length_eq_zero_iff.mp (by omega)
    rw [if_neg hpos, hnil, List.nil_append, Reader.run_pure]

lemma readTopic_layout (hcap : l.topic.length ≤ cap) (r : Bytes) :
    (readTopic cap).run (l.topicPart ++ r) = some (utf8Decode l.topic, r) := by
  rw [Layout.topicPart, List.append_assoc, readTopic, Reader.run_bind_of_some (getByte_ofNat _ _),
    toInt_byte l.length_topic, Reader.run_bind_of_some (getInto_append rfl (by omega) _),
    Reader.run_pure]

lemma readProperties_layout (h : l.ReadThrough cap svc checkCRC readBody) (r : Bytes) :
    ∃ p, (readProperties cap svc (utf8Decode l.topic) l.fields).run (l.propertiesPart ++ r) =
      some (p, r) := by
  have hlen := l.length_properties
  have hcap := h.properties
  rw [Layout.propertiesPart, List.append_assoc, readProperties,
    Reader.run_bind_of_some (getShort_putShort _ _), BitVec.ofNat_toNat, BitVec.setWidth_eq]
  by_cases hpos : 0 < l.propertiesLength.toInt
  · have hne : l.properties ≠ [] := by
      intro hnil
      rw [hnil, List.length_nil] at hlen
      omega
    obtain ⟨tagsCode, ht⟩ := Option.isSome_iff_exists.mp (h.delay hne)
    rw [if_pos hpos, Reader.run_bind_of_some (getInto_append (by omega) (by omega) _)]
    simp only [ht]
    rw [Reader.run_bind_of_some (Reader.run_ofOption_some _ _)]
    exact ⟨_, rfl⟩
  · have hnil : l.properties = [] := List.length_eq_zero_iff.mp (by omega)
    rw [if_neg hpos, hnil, List.nil_append]
    exact ⟨_, rfl⟩

lemma readRecord_layout (hcap : 8 ≤ cap) (h : l.ReadThrough cap svc checkCRC readBody)
    (r : Bytes) : ∃ d, (readRecord cap svc checkCRC readBody).run (l.bytes ++ r) = some (d, r) ∧
      d.msgSize = l.totalSize := by
  obtain ⟨⟨tagsCode, keys⟩, hp⟩ := readProperties_layout h r
  simp only [Layout.bytes, List.append_assoc]
  rw [readRecord, Reader.run_bind_of_some (getInt_putInt _ _),
    Reader.run_bind_of_some (getInt_putInt _ _), if_pos rfl, readMessage,
    Reader.run_bind_of_some
      (readFixed_fieldBytes l.fields l.length_bornHost l.length_storeHost hcap _),
    Reader.run_bind_of_some (readBodyPart_layout h _), if_pos rfl, readText,
    Reader.run_bind_of_some (readTopic_layout h.topic _), Reader.run_bind_of_some hp]
  exact ⟨_, rfl, rfl⟩

/-! ### What is read is a record -/

variable {bs rest : Bytes}

lemma getInto_eq_some {n : ℤ} {a : Bytes} (h : (getInto cap n).run bs = some (a, rest)) :
    bs = a ++ rest ∧ (a.length : ℤ) = n ∧ a.length ≤ cap := by
  unfold getInto at h
  split_ifs at h with hn
  · cases h
  · obtain ⟨rfl, hlen⟩ := getBytes_eq_some h
    exact ⟨rfl, by omega, by omega⟩

lemma readFixed_eq_some {f : Fixed} (h : (readFixed cap).run bs = some (f, rest)) :
    ∃ bornHost storeHost : Bytes, bornHost.length = 8 ∧ storeHost.length = 8 ∧
      bs = fieldBytes f bornHost storeHost ++ rest := by
  obtain ⟨bodyCRC, b₁, h₁, h⟩ := Reader.run_bind_eq_some h
  obtain ⟨queueId, b₂, h₂, h⟩ := Reader.run_bind_eq_some h
  obtain ⟨flag, b₃, h₃, h⟩ := Reader.run_bind_eq_some h
  obtain ⟨queueOffset, b₄, h₄, h⟩ := Reader.run_bind_eq_some h
  obtain ⟨physicOffset, b₅, h₅, h⟩ := Reader.run_bind_eq_some h
  obtain ⟨sysFlag, b₆, h₆, h⟩ := Reader.run_bind_eq_some h
  obtain ⟨bornTimeStamp, b₇, h₇, h⟩ := Reader.run_bind_eq_some h
  obtain ⟨bornHost, b₈, h₈, h⟩ := Reader.run_bind_eq_some h
  obtain ⟨storeTimestamp, b₉, h₉, h⟩ := Reader.run_bind_eq_some h
  obtain ⟨storeHost, b₁₀, h₁₀, h⟩ := Reader.run_bind_eq_some h
  obtain ⟨reconsumeTimes, b₁₁, h₁₁, h⟩ := Reader.run_bind_eq_some h
  obtain ⟨preparedTransactionOffset, b₁₂, h₁₂, h⟩ := Reader.run_bind_eq_some h
  simp only [Reader.run_pure, Option.some.injEq, Prod.mk.injEq] at h
  obtain ⟨rfl, rfl⟩ := h
  obtain ⟨hborn, hborn8, -⟩ := getInto_eq_some h₈
  obtain ⟨hstore, hstore8, -⟩ := getInto_eq_some h₁₀
  refine ⟨bornHost, storeHost, by omega, by omega, ?_⟩
  rw [getInt_eq_some h₁, getInt_eq_some h₂, getInt_eq_some h₃, getLong_eq_some h₄,
    getLong_eq_some h₅, getInt_eq_some h₆, getLong_eq_some h₇, hborn, getLong_eq_some h₉, hstore,
    getInt_eq_some h₁₁, getLong_eq_some h₁₂]
  simp only [fieldBytes, List.append_assoc]

lemma readBodyPart_eq_some {crc : Int32}
    (h : (readBodyPart cap checkCRC readBody crc).run bs = some (true, rest)) :
    ∃ (bodyLen : Int32) (body : Bytes), bs = putInt bodyLen ++ (body ++ rest) ∧
      (body.length : ℤ) = max bodyLen.toInt 0 ∧ (readBody = true → body.length ≤ cap) ∧
      (readBody = true → checkCRC = true → body ≠ [] → crc32 body = crc) := by
  obtain ⟨bodyLen, mid, hint, h⟩ := Reader.run_bind_eq_some h
  have hbs := getInt_eq_some hint
  split_ifs at h with hpos hread
  · obtain ⟨body, mid', hbody, hrest⟩ := Reader.run_bind_eq_some h
    obtain ⟨rfl, hlen, hcap⟩ := getInto_eq_some hbody
    simp only [Reader.run_pure, Option.some.injEq, Prod.mk.injEq] at hrest
    obtain ⟨hcrc, rfl⟩ := hrest
    refine ⟨bodyLen, body, hbs, by omega, fun _ => hcap, fun _ hcheck _ => ?_⟩
    rw [hcheck] at hcrc
    simpa using hcrc
  · obtain ⟨body, mid', hbody, hrest⟩ := Reader.run_bind_eq_some h
    obtain ⟨rfl, hlen⟩ := getBytes_eq_some hbody
    simp only [Reader.run_pure, Option.some.injEq, Prod.mk.injEq] at hrest
    obtain ⟨-, rfl⟩ := hrest
    exact ⟨bodyLen, body, hbs, by omega, fun hr => absurd hr hread, fun hr => absurd hr hread⟩
  · simp only [Reader.run_pure, Option.some.injEq, Prod.mk.injEq] at h
    obtain ⟨-, rfl⟩ := h
    exact ⟨bodyLen, [], hbs, by rw [List.length_nil]; omega, fun _ => Nat.zero_le _,
      fun _ _ hne => absurd rfl hne⟩

lemma readTopic_eq_some {topic : Text} (h : (readTopic cap).run bs = some (topic, rest)) :
    ∃ a : Bytes, bs = [UInt8.ofNat a.length] ++ (a ++ rest) ∧ a.length ≤ 127 ∧ a.length ≤ cap ∧
      topic = utf8Decode a := by
  obtain ⟨topicLen, mid, hbyte, h⟩ := Reader.run_bind_eq_some h
  obtain ⟨a, mid', ha, h⟩ := Reader.run_bind_eq_some h
  simp only [Reader.run_pure, Option.some.injEq, Prod.mk.injEq] at h
  obtain ⟨rfl, rfl⟩ := h
  obtain ⟨n, hn, rfl, rfl⟩ := getByte_eq_some hbyte
  obtain ⟨rfl, hlen, hcap⟩ := getInto_eq_some ha
  -- a byte that is no negative length is the length itself
  have htoInt : (BitVec.ofNat 8 n).toInt = if n < 128 then (n : ℤ) else n - 256 := by
    rw [BitVec.toInt_eq_toNat_cond, BitVec.toNat_ofNat, Nat.mod_eq_of_lt (by omega)]
    split_ifs <;> omega
  rw [htoInt] at hlen
  have hlt : a.length = n ∧ n < 128 := by split_ifs at hlen <;> omega
  exact ⟨a, by rw [hlt.1], by omega, hcap, rfl⟩

lemma readProperties_eq_some {topic : Text} {f : Fixed} {p : Int64 × Option Text}
    (h : (readProperties cap svc topic f).run bs = some (p, rest)) :
    ∃ (propertiesLength : BitVec 16) (properties : Bytes),
      bs = putShort propertiesLength.toNat ++ (properties ++ rest) ∧
      (properties.length : ℤ) = max propertiesLength.toInt 0 ∧ properties.length ≤ cap ∧
      (properties ≠ [] → (readTagsCode svc topic f.sysFlag f.storeTimestamp
        (string2messageProperties (utf8Decode properties))).isSome) := by
  obtain ⟨len, mid, hshort, h⟩ := Reader.run_bind_eq_some h
  obtain ⟨n, hn, rfl, rfl⟩ := getShort_eq_some hshort
  have hnat : (BitVec.ofNat 16 n).toNat = n := by
    rw [BitVec.toNat_ofNat, Nat.mod_eq_of_lt (by omega)]
  split_ifs at h with hpos
  · obtain ⟨properties, mid', hprops, hafter⟩ := Reader.run_bind_eq_some h
    obtain ⟨tagsCode, mid'', htags, hend⟩ := Reader.run_bind_eq_some hafter
    obtain ⟨rfl, hlen, hcap⟩ := getInto_eq_some hprops
    simp only [Reader.run_pure, Option.some.injEq, Prod.mk.injEq] at hend
    obtain ⟨-, rfl⟩ := hend
    cases ht : readTagsCode svc topic f.sysFlag f.storeTimestamp
        (string2messageProperties (utf8Decode properties)) with
    | none => rw [ht, Reader.run_ofOption_none] at htags; cases htags
    | some t =>
      rw [ht, Reader.run_ofOption_some, Option.some.injEq, Prod.mk.injEq] at htags
      obtain ⟨-, rfl⟩ := htags
      exact ⟨BitVec.ofNat 16 n, properties, by rw [hnat], by omega, hcap, fun _ => by rw [ht]; rfl⟩
  · simp only [Reader.run_pure, Option.some.injEq, Prod.mk.injEq] at h
    obtain ⟨-, rfl⟩ := h
    exact ⟨BitVec.ofNat 16 n, [], by rw [hnat]; rfl, by rw [List.length_nil]; omega,
      Nat.zero_le _, fun hne => absurd rfl hne⟩

/-- A request other than the two bare sizes comes from a record read through. -/
lemma readMessage_eq_some {totalSize : Int32} {d : DispatchRequest}
    (h : (readMessage cap svc checkCRC readBody totalSize).run bs = some (d, rest)) :
    d = .ofSize (-1) ∨ ∃ l : Layout, putInt totalSize ++ (putInt MessageMagicCode ++ bs) =
      l.bytes ++ rest ∧ l.ReadThrough cap svc checkCRC readBody ∧ l.totalSize = totalSize ∧
      d.msgSize = totalSize := by
  obtain ⟨f, b₁, hfixed, h⟩ := Reader.run_bind_eq_some h
  obtain ⟨crcOK, b₂, hbody, h⟩ := Reader.run_bind_eq_some h
  cases crcOK with
  | false =>
    simp only [Bool.false_eq_true, if_false, Reader.run_pure, Option.some.injEq,
      Prod.mk.injEq] at h
    exact .inl h.1.symm
  | true =>
    right
    obtain ⟨topic, b₃, htopic, htext⟩ := Reader.run_bind_eq_some h
    obtain ⟨p, b₄, hprops, hend⟩ := Reader.run_bind_eq_some htext
    obtain ⟨bornHost, storeHost, hborn, hstore, rfl⟩ := readFixed_eq_some hfixed
    obtain ⟨bodyLen, body, rfl, hlen, hcap, hcrc⟩ := readBodyPart_eq_some hbody
    obtain ⟨topicData, rfl, h127, htcap, rfl⟩ := readTopic_eq_some htopic
    obtain ⟨propertiesLength, properties, rfl, hplen, hpcap, hdelay⟩ :=
      readProperties_eq_some hprops
    simp only [Reader.run_pure, Option.some.injEq, Prod.mk.injEq] at hend
    obtain ⟨rfl, rfl⟩ := hend
    refine ⟨⟨totalSize, f, bornHost, storeHost, bodyLen, body, topicData, propertiesLength,
      properties, hborn, hstore, hlen, h127, hplen⟩, ?_, ⟨hcap, hcrc, htcap, hpcap, hdelay⟩, rfl,
      rfl⟩
    simp only [Layout.bytes, Layout.bodyPart, Layout.topicPart, Layout.propertiesPart,
      List.append_assoc]

/-! ### The size and the bytes used up -/

/-- A blank record stands at the front. -/
def BlankAhead (bs : Bytes) : Prop :=
  ∃ (size : Int32) (rest : Bytes), bs = putInt size ++ (putInt BlankMagicCode ++ rest)

/-- A positive size is the number of bytes used up. Any other answer is 0, at a blank record,
or −1. -/
structure Honest (bs : Bytes) (answer : DispatchRequest × Bytes) : Prop where
  used : 0 < answer.1.msgSize.toInt →
    ∃ front : Bytes, bs = front ++ answer.2 ∧ (front.length : ℤ) = answer.1.msgSize.toInt
  other : ¬ 0 < answer.1.msgSize.toInt →
    answer.1.msgSize = 0 ∧ BlankAhead bs ∨ answer.1.msgSize = -1

/-- A record at the front that can be read through states its own length as its size, or −1. -/
def StatesLength (cap : ℕ) (svc : Option ScheduleMessageService) (checkCRC readBody : Bool)
    (bs : Bytes) : Prop :=
  ∀ (l : Layout) (rest : Bytes), bs = l.bytes ++ rest → l.ReadThrough cap svc checkCRC readBody →
    l.totalSize = -1 ∨ l.totalSize.toInt = l.bytes.length

lemma honest_of_minus_one {r : Bytes} : Honest bs (.ofSize (-1), r) :=
  ⟨fun h => absurd h (show ¬ 0 < (-1 : Int32).toInt by decide), fun _ => .inr rfl⟩

lemma honest_of_statesLength {d : DispatchRequest}
    (hstates : StatesLength cap svc checkCRC readBody bs)
    (h : (readRecord cap svc checkCRC readBody).run bs = some (d, rest)) :
    Honest bs (d, rest) := by
  obtain ⟨totalSize, b₁, h₁, h⟩ := Reader.run_bind_eq_some h
  obtain ⟨magicCode, b₂, h₂, h⟩ := Reader.run_bind_eq_some h
  have hbs : bs = putInt totalSize ++ (putInt magicCode ++ b₂) := by
    rw [getInt_eq_some h₁, getInt_eq_some h₂]
  split_ifs at h with hmessage hblank
  · rw [hmessage] at hbs
    obtain rfl | ⟨l, hl, hthrough, rfl, hsize⟩ := readMessage_eq_some h
    · exact honest_of_minus_one
    · rw [hl] at hbs
      obtain hneg | hown := hstates l rest hbs hthrough
      · exact ⟨fun hpos => by rw [hsize, hneg] at hpos; exact absurd hpos (by decide),
          fun _ => .inr (hsize.trans hneg)⟩
      · refine ⟨fun _ => ⟨l.bytes, hbs, by rw [hsize, hown]⟩, fun hpos => ?_⟩
        -- a record is never empty
        rw [hsize, hown, l.length_bytes] at hpos
        omega
  · simp only [Reader.run_pure, Option.some.injEq, Prod.mk.injEq] at h
    obtain ⟨rfl, rfl⟩ := h
    rw [hblank] at hbs
    exact ⟨fun hpos => absurd hpos (show ¬ 0 < (0 : Int32).toInt by decide),
      fun _ => .inl ⟨rfl, _, _, hbs⟩⟩
  · simp only [Reader.run_pure, Option.some.injEq, Prod.mk.injEq] at h
    obtain ⟨rfl, rfl⟩ := h
    exact honest_of_minus_one

lemma not_blankAhead (l : Layout) (r : Bytes) : ¬ BlankAhead (l.bytes ++ r) := by
  rintro ⟨size, rest, h⟩
  rw [Layout.bytes, List.append_assoc, List.append_assoc] at h
  have h₁ := getInt_putInt l.totalSize
    ((putInt MessageMagicCode ++ (fieldBytes l.fields l.bornHost l.storeHost ++
      (l.bodyPart ++ (l.topicPart ++ l.propertiesPart)))) ++ r)
  rw [List.append_assoc, h, getInt_putInt, Option.some.injEq, Prod.mk.injEq] at h₁
  have h₂ := getInt_putInt BlankMagicCode rest
  rw [h₁.2, getInt_putInt, Option.some.injEq, Prod.mk.injEq] at h₂
  exact absurd h₂.1 (by decide)

variable (maxMessageSize : ℕ) (svc) (checkCRC readBody) (bs)

/-- **The size is what was used up** unless a record that can be read through states another. -/
theorem honest_iff :
    Honest bs (checkMessageAndReturnSize maxMessageSize svc checkCRC readBody bs) ↔
      StatesLength (maxMessageSize + END_FILE_MIN_BLANK_LENGTH) svc checkCRC readBody bs := by
  constructor
  · rintro h l rest rfl hthrough
    have hcap : 8 ≤ maxMessageSize + END_FILE_MIN_BLANK_LENGTH := Nat.le_add_left _ _
    obtain ⟨d, hrun, hsize⟩ := readRecord_layout hcap hthrough rest
    rw [checkMessageAndReturnSize, hrun] at h
    by_cases hpos : 0 < l.totalSize.toInt
    · obtain ⟨front, hfront, hlen⟩ := h.used (by rw [hsize]; exact hpos)
      rw [List.append_cancel_right hfront]
      exact .inr (by rw [hlen, hsize])
    · obtain ⟨-, hblank⟩ | hneg := h.other (by rw [hsize]; exact hpos)
      · exact absurd hblank (not_blankAhead l rest)
      · exact .inl (hsize.symm.trans hneg)
  · intro hstates
    rw [checkMessageAndReturnSize]
    cases hrun : (readRecord (maxMessageSize + END_FILE_MIN_BLANK_LENGTH) svc checkCRC
        readBody).run bs with
    | none => exact honest_of_minus_one
    | some answer => exact honest_of_statesLength hstates hrun

/-- A record without body and properties, of 92 bytes, that gives its size as 1. -/
def shortRecord : Bytes :=
  putInt 1 ++ putInt MessageMagicCode ++ List.replicate 80 0 ++ [1, 84] ++ putShort 0

/-- The 92 bytes are used up, the answer is 1. -/
theorem shortRecord_not_honest :
    ¬ Honest shortRecord (checkMessageAndReturnSize 1024 none true true shortRecord) ∧
    ¬ Honest shortRecord (checkMessageAndReturnSize 1024 none true false shortRecord) := by
  have h : ∀ readBody,
      (checkMessageAndReturnSize 1024 none true readBody shortRecord).1.msgSize = 1 ∧
      (checkMessageAndReturnSize 1024 none true readBody shortRecord).2 = [] := by
    decide
  refine ⟨fun hh => ?_, fun hh => ?_⟩ <;>
  · obtain ⟨front, hfront, hlen⟩ := hh.used (by rw [(h _).1]; decide)
    rw [(h _).2, List.append_nil] at hfront
    rw [(h _).1, ← hfront] at hlen
    exact absurd hlen (by decide)

end Read

end CloudMQ.RecordSizes
