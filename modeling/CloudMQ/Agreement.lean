import CloudMQ.Append

/-!
Codec agreement: the record of a stored message reads back as the message, with the size the
store reported.

The admission check of the store counts characters, and it is made before a delay level rewrites
the properties. The record has one byte for the length of the topic and two for that of the
properties. The two agree exactly on messages whose encoded topic and properties fit.
-/

namespace CloudMQ.Agreement

open CloudMQ.Buffer CloudMQ.Utf8 CloudMQ.Strings CloudMQ.Message CloudMQ.Record CloudMQ.Codec
open CloudMQ.Segment CloudMQ.Chain CloudMQ.CommitLog CloudMQ.Append

variable {cfg : MessageStoreConfig} {env : Env} {m m' : MessageExtBrokerInner}
  {log log' : Log} {result : AppendMessageResult}

/-! ### The message that is serialised -/

/-- The message as `doAppend` sees it. -/
def stored (cfg : MessageStoreConfig) (env : Env) (m : MessageExtBrokerInner) :
    Option MessageExtBrokerInner :=
  (prepare cfg env m).map fun p => stamp env p.1

/-- Without a level there is no delay. -/
lemma isDelayed_of_none (h : m.properties.get PROPERTY_DELAY_TIME_LEVEL = none) :
    isDelayed m = some false := by
  unfold isDelayed MessageExtBrokerInner.getDelayTimeLevel MessageExtBrokerInner.getProperty
  rw [h]
  dsimp only
  split <;> rfl

lemma prepare_at_once (h : isDelayed m = some false) :
    prepare cfg env m = some (checksum env m, m.tagsCode) := by
  have hsame : isDelayed (checksum env m) = some false := h
  rw [prepare, hsame]
  rfl

/-- The body keeps the CRC that was computed for it. -/
def OwnCRC (m : MessageExtBrokerInner) : Prop :=
  m.bodyCRC = (m.body.map fun b => crc32 b.val).getD 0

lemma redirect_body {order : EntryOrder} {tagsCode : Int64}
    (h : redirect cfg order m = some (m', tagsCode)) :
    m'.body = m.body ∧ m'.bodyCRC = m.bodyCRC := by
  simp only [redirect, Option.bind_eq_bind, Option.bind_eq_some_iff] at h
  obtain ⟨level, -, level', -, h⟩ := h
  simp only [Option.pure_def, Option.some.injEq, Prod.mk.injEq] at h
  rw [← h.1]
  simp only [MessageExtBrokerInner.putProperty, MessageExtBrokerInner.setDelayTimeLevel]
  split <;> exact ⟨rfl, rfl⟩

lemma ownCRC_prepare {tagsCode : Int64} (h : prepare cfg env m = some (m', tagsCode)) :
    OwnCRC m' := by
  simp only [prepare, Option.bind_eq_bind, Option.bind_eq_some_iff] at h
  obtain ⟨delayed, -, h⟩ := h
  cases delayed with
  | true =>
    obtain ⟨h1, h2⟩ := redirect_body h
    rw [OwnCRC, h1, h2]
    rfl
  | false =>
    simp only [Bool.false_eq_true, if_false, Option.pure_def, Option.some.injEq,
      Prod.mk.injEq] at h
    rw [← h.1]
    rfl

lemma ownCRC_stored (h : stored cfg env m = some m') : OwnCRC m' := by
  obtain ⟨⟨m₁, tagsCode⟩, hp, rfl⟩ := Option.map_eq_some_iff.mp h
  exact show OwnCRC m₁ from ownCRC_prepare hp

lemma OwnCRC.bodyCRC_eq (h : OwnCRC m) (hne : m.bodyBytes ≠ []) :
    m.bodyCRC = crc32 m.bodyBytes := by
  rw [h]
  unfold MessageExtBrokerInner.bodyBytes at *
  cases hb : m.body with
  | none => rw [hb] at hne; exact absurd rfl hne
  | some b => rfl

lemma bodyBytes_lt (m : MessageExtBrokerInner) : m.bodyBytes.length < 2 ^ 31 := by
  unfold MessageExtBrokerInner.bodyBytes
  cases m.body with
  | none => simp
  | some b => exact b.2

/-! ### Reading at an offset -/

/-- The bytes of a file from the given offset on, found as readers find them. -/
def sliceAt (q : MapedFileQueue Bytes) (offset : ℕ) : Bytes :=
  match q.findMapedFileByOffset offset false with
  | some f => f.mappedByteBuffer.drop (offset % q.mapedFileSize)
  | none => []

/-- What was read at the head of `slice` is the stored message, `wroteBytes` long. -/
structure ReadsBack (m : MessageExtBrokerInner) (result : AppendMessageResult) (slice : Bytes)
    (read : DispatchRequest × Bytes) : Prop where
  size : read.1.msgSize.toInt = result.wroteBytes
  position : read.2 = slice.drop result.wroteBytes
  topic : read.1.topic = m.topic
  queueId : read.1.queueId = m.queueId
  commitLogOffset : read.1.commitLogOffset = Int64.ofNat result.wroteOffset
  sysFlag : read.1.sysFlag = m.sysFlag
  storeTimestamp : read.1.storeTimestamp = m.storeTimestamp
  keys : read.1.keys.getD [] = m.getKeys.getD []
  queueOffset : read.1.consumeQueueOffset = result.logicsOffset
  preparedTransactionOffset : read.1.preparedTransactionOffset = m.preparedTransactionOffset

/-- A record of the message followed by anything: topic and properties decide. -/
lemma check_recordBytes {svc : Option ScheduleMessageService} {checkCRC readBody : Bool}
    {len : Int32} {bh sh : Bytes} {qo : Int64} {p : ℕ} (hcrc : OwnCRC m) (hb : bh.length = 8)
    (hs : sh.length = 8) {max : ℕ} (hmax : recordSize m ≤ max) (r : Bytes) :
    checkMessageAndReturnSize max svc checkCRC readBody (recordBytes m len bh sh qo p ++ r) =
      ((readText (max + END_FILE_MIN_BLANK_LENGTH) svc len (fixedOf m qo p)).run
        (textBytes m ++ r)).getD (.ofSize (-1), []) := by
  unfold checkMessageAndReturnSize
  rw [readRecord_append hb hs (by omega) hcrc.bodyCRC_eq (bodyBytes_lt m)]
  cases (readText (max + END_FILE_MIN_BLANK_LENGTH) svc len (fixedOf m qo p)).run
    (textBytes m ++ r) <;> rfl

lemma check_blankBytes {svc : Option ScheduleMessageService} {checkCRC readBody : Bool}
    (max : ℕ) (memory : ℕ → UInt8) (n : ℕ) (r : Bytes) :
    (checkMessageAndReturnSize max svc checkCRC readBody (blankBytes memory n ++ r)).1 =
      .ofSize 0 := by
  unfold checkMessageAndReturnSize
  simp only [readRecord, blankBytes, List.append_assoc]
  rw [Reader.run_bind_of_some (getInt_putInt _ _), Reader.run_bind_of_some (getInt_putInt _ _),
    if_neg (by decide), if_pos rfl, Reader.run_pure]

/-- When the record fits its length fields, the reader takes exactly the record. -/
lemma check_fits {svc : Option ScheduleMessageService} {checkCRC readBody : Bool} {len : Int32}
    {bh sh : Bytes} {qo : Int64} {p : ℕ} (hcrc : OwnCRC m) (hb : bh.length = 8)
    (hs : sh.length = 8) {max : ℕ} (hmax : recordSize m ≤ max) (hfits : Fits m) (r : Bytes) :
    checkMessageAndReturnSize max svc checkCRC readBody (recordBytes m len bh sh qo p ++ r) =
      ((storedTagsCode svc m).map fun tagsCode => (requestOf m len qo p tagsCode, r)).getD
        (.ofSize (-1), []) := by
  rw [check_recordBytes hcrc hb hs hmax, readText_append hfits (by omega)]

/-- A reader that finds the topic and stops behind the record has read one that fits. -/
lemma fits_of_readText {svc : Option ScheduleMessageService} {cap : ℕ} {len : Int32} {qo : Int64}
    {p : ℕ} {d : DispatchRequest} {r left : Bytes} (hcap : recordSize m ≤ cap)
    (h : (readText cap svc len (fixedOf m qo p)).run (textBytes m ++ r) = some (d, left))
    (htopic : d.topic = m.topic) (hleft : left = r) : Fits m := by
  have hshort : m.topicData.length ≤ 127 := by
    by_contra hlong
    exact readText_long_topic (by omega) h htopic
  refine ⟨hshort, ?_⟩
  by_contra hlong
  have hlonger := readText_long_properties hshort hcap (by omega) h
  rw [hleft] at hlonger
  exact absurd hlonger (lt_irrefl _)

/-- **The exact condition, for one record.** -/
lemma readsBack_record_iff {svc : Option ScheduleMessageService} {bh sh : Bytes} {qo : Int64}
    {p : ℕ} (hcrc : OwnCRC m) (hb : bh.length = 8) (hs : sh.length = 8)
    (hmax : recordSize m ≤ cfg.maxMessageSize) (hsize : result.wroteBytes = recordSize m)
    (hoff : result.wroteOffset = p) (hqo : result.logicsOffset = qo) {slice r : Bytes}
    (hslice : slice = recordBytes m (Int32.ofNat (recordSize m)) bh sh qo p ++ r) :
    ReadsBack m result slice
      (checkMessageAndReturnSize cfg.maxMessageSize svc true true slice) ↔
    Fits m ∧ DelayReadable svc m ∧ (storedKeys m).getD [] = m.getKeys.getD [] := by
  have hlt := cfg.maxMessageSize_lt
  have hint : (Int32.ofNat (recordSize m)).toInt = recordSize m :=
    Int32.toInt_ofNat_of_lt (by omega)
  have hdrop : slice.drop result.wroteBytes = r := by
    rw [hslice, hsize]
    exact List.drop_left' (length_recordBytes hb hs)
  have hcheck := @check_recordBytes m svc true true (Int32.ofNat (recordSize m)) bh sh qo p
    hcrc hb hs _ hmax r
  rw [← hslice] at hcheck
  constructor
  · intro h
    cases ht : (readText (cfg.maxMessageSize + END_FILE_MIN_BLANK_LENGTH) svc
        (Int32.ofNat (recordSize m)) (fixedOf m qo p)).run (textBytes m ++ r) with
    | none =>
      -- an exception answers −1
      have hneg := h.size
      rw [hcheck, ht] at hneg
      have h1 : (-1 : Int32).toInt = -1 := rfl
      simp only [Option.getD_none, DispatchRequest.ofSize] at hneg
      omega
    | some out =>
      obtain ⟨d, left⟩ := out
      rw [ht, Option.getD_some] at hcheck
      have hfits : Fits m := by
        have hpos := h.position
        rw [hdrop, hcheck] at hpos
        exact fits_of_readText (by omega) ht (by rw [← h.topic, hcheck]) hpos
      rw [readText_append hfits (by omega)] at ht
      cases htags : storedTagsCode svc m with
      | none => rw [htags] at ht; exact absurd ht (by simp)
      | some tagsCode =>
        rw [htags, Option.map_some, Option.some.injEq, Prod.mk.injEq] at ht
        refine ⟨hfits, storedTagsCode_isSome.mp (by rw [htags]; rfl), ?_⟩
        rw [← h.keys, hcheck, ← ht.1]
        rfl
  · rintro ⟨hfits, hdelay, hkeys⟩
    obtain ⟨tagsCode, htags⟩ := Option.isSome_iff_exists.mp (storedTagsCode_isSome.mpr hdelay)
    rw [readText_append hfits (by omega), htags, Option.map_some, Option.getD_some] at hcheck
    rw [hcheck]
    exact ⟨by simp only [requestOf, hint, hsize], hdrop.symm, rfl, rfl,
      by simp only [requestOf, hoff], rfl, rfl, hkeys, by simp only [requestOf, hqo], rfl⟩

/-! ### The stored message -/

lemma sliceAt_appended {fresh : Option (ℕ → UInt8)} {memory : ℕ → UInt8} {f : MapedFile Bytes}
    {q : MapedFileQueue Bytes} {bs : Bytes} (hlog : LogOK log)
    (h : AppendedTo cfg memory fresh m log log' result f q bs) :
    sliceAt log'.mapedFileQueue (f.fileFromOffset + f.wrotePostion) =
      bs ++ f.mappedByteBuffer.drop (f.wrotePostion + bs.length) := by
  have hok := h.logOK hlog
  have hsize : log'.mapedFileQueue.mapedFileSize = log.mapedFileQueue.mapedFileSize := by
    rw [h.queue]; exact h.size
  have hmem : grown f result bs ∈ log'.mapedFileQueue.mapedFiles := by
    rw [h.queue]; simp [MapedFileQueue.setLast]
  have hlt := h.lt
  have hfind := find_of_mem hok.chained hmem (o := f.fileFromOffset + f.wrotePostion)
    (Nat.le_add_right f.fileFromOffset _)
    (by rw [hsize]; exact Nat.add_lt_add_left hlt f.fileFromOffset) false
  obtain ⟨k, hk⟩ := hok.chained.aligned (extent (grown f result bs)) (List.mem_map_of_mem hmem)
  change f.fileFromOffset = _ at hk
  have hmod : (f.fileFromOffset + f.wrotePostion) % log'.mapedFileQueue.mapedFileSize =
      f.wrotePostion := by
    rw [hk, Nat.mul_add_mod, Nat.mod_eq_of_lt (by rw [hsize]; exact hlt)]
  rw [sliceAt, hfind]
  simp only
  rw [hmod, h.drop_grown]

lemma msgLen_le (m : MessageExtBrokerInner) : msgLen m ≤ recordSize m := by
  unfold msgLen
  rw [BitVec.toInt_eq_toNat_cond]
  have := Nat.mod_le (recordSize m) (2 ^ 32)
  simp only [BitVec.toNat_ofNat]
  split <;> omega

/-- **The exact condition, for a message that was stored.** A record that does not fit a whole
file is not written at all: the store then reports the blank record of the second file. -/
lemma readsBack_stored_iff {svc : Option ScheduleMessageService} (hlog : LogOK log)
    (hcrc : OwnCRC m) (hp : putLocked cfg env m log = (log', .stored result)) :
    ReadsBack m result (sliceAt log'.mapedFileQueue result.wroteOffset)
      (checkMessageAndReturnSize cfg.maxMessageSize svc true true
        (sliceAt log'.mapedFileQueue result.wroteOffset)) ↔
    recordSize m + END_FILE_MIN_BLANK_LENGTH ≤ log.mapedFileQueue.mapedFileSize ∧
      Fits m ∧ DelayReadable svc m ∧ (storedKeys m).getD [] = m.getKeys.getD [] := by
  obtain ⟨log₁, fresh, memory, f, q, bs, hok₁, hsize, hap, hstatus⟩ := putLocked_stored hlog hp
  have hslice := sliceAt_appended hok₁ hap
  rw [← hsize]
  rcases hap.wrote with hw | hw | ⟨rfl, -⟩
  · obtain ⟨bh, sh, hb, hs, hbs⟩ := hw.bytes
    rw [← hw.wroteOffset, hbs] at hslice
    rw [readsBack_record_iff (r := f.mappedByteBuffer.drop
      (f.wrotePostion + (recordBytes m (Int32.ofNat (recordSize m)) bh sh result.logicsOffset
        (f.fileFromOffset + f.wrotePostion)).length)) hcrc hb hs hw.size_le hw.wroteBytes
      hw.wroteOffset rfl hslice]
    have := hw.fits
    constructor
    · intro h
      exact ⟨by omega, h⟩
    · exact fun h => h.2
  · -- a blank record: no message is read, and there was no room in an empty file
    have hzero : f.wrotePostion = 0 := by
      rcases hstatus with hs | ⟨-, hs⟩
      · rw [hw.status] at hs; exact absurd hs (by simp)
      · exact hs
    rw [← hw.wroteOffset, hw.bytes] at hslice
    constructor
    · intro h
      have hread := h.size
      have := hw.le
      rw [hslice, check_blankBytes, hw.wroteBytes] at hread
      have h0 : (0 : Int32).toInt = 0 := rfl
      simp only [DispatchRequest.ofSize] at hread
      omega
    · rintro ⟨hfit, -⟩
      have h1 := hw.no_room
      have h2 := msgLen_le m
      rw [hzero] at h1
      omega
  · simp [AppendMessageResult.ofStatus] at hstatus

lemma putMessage_ok {put : Put} (h : putMessage cfg env m log = (log', .ok put))
    (hok : put.result.putMessageStatus = .PUT_OK) :
    ∃ m' tagsCode result, prepare cfg env m = some (m', tagsCode) ∧
      putLocked cfg env (stamp env m') log = (log', .stored result) ∧
      put.result.appendMessageResult = some result ∧
      put.dispatched = some (dispatchRequest (stamp env m') tagsCode result) := by
  unfold putMessage at h
  split at h
  · exact absurd (congrArg Prod.snd h) (by simp)
  · next m' tagsCode hprep =>
    simp only at h
    split at h
    · exact absurd (congrArg Prod.snd h) (by simp)
    · next log₁ status result hl =>
      -- the early returns have other statuses
      simp only [Prod.mk.injEq, Except.ok.injEq] at h
      rw [← h.2] at hok
      simp only at hok
      subst hok
      unfold putLocked at hl
      split at hl
      · simp at hl
      · simp at hl
      · split at hl
        · simp at hl
        · split at hl <;> simp at hl
        · simp at hl
        · simp at hl
    · next log₁ result hl =>
      simp only [Prod.mk.injEq, Except.ok.injEq] at h
      obtain ⟨rfl, rfl⟩ := h
      exact ⟨m', tagsCode, result, hprep, hl, rfl, rfl⟩

lemma storePut_ok {s s' : Store} {put : Put} (hput : s.putMessage cfg env m = (s', .ok put))
    (hok : put.result.putMessageStatus = .PUT_OK) :
    ∃ m' tagsCode result, prepare cfg env m = some (m', tagsCode) ∧
      putLocked cfg env (stamp env m') s.commitLog = (s'.commitLog, .stored result) ∧
      put.result.appendMessageResult = some result ∧
      put.dispatched = some (dispatchRequest (stamp env m') tagsCode result) := by
  unfold Store.putMessage at hput
  split at hput
  · simp only [Prod.mk.injEq, Except.ok.injEq] at hput
    rw [← hput.2] at hok
    exact absurd hok (by simp)
  · split at hput
    · simp only [Prod.mk.injEq, Except.ok.injEq] at hput
      rw [← hput.2] at hok
      exact absurd hok (by simp)
    · simp only [Prod.mk.injEq] at hput
      obtain ⟨rfl, hput⟩ := hput
      exact putMessage_ok (Prod.ext rfl hput) hok

/-- **Codec agreement.** A message that the store accepted and stored reads back from the log,
with all its fields and exactly the reported size, if and only if its record fits a file, the
encoded topic and properties fit their length fields, a delay level among the properties can be
read, and the properties that were written hold the keys of the message. -/
theorem codec_agreement {s s' : Store} {put : Put} (hlog : LogOK s.commitLog)
    (hput : s.putMessage cfg env m = (s', .ok put))
    (hok : put.result.putMessageStatus = .PUT_OK) :
    ∃ m' result, stored cfg env m = some m' ∧ put.result.appendMessageResult = some result ∧
      (ReadsBack m' result (sliceAt s'.commitLog.mapedFileQueue result.wroteOffset)
        (checkMessageAndReturnSize cfg.maxMessageSize (some cfg.scheduleMessageService) true true
          (sliceAt s'.commitLog.mapedFileQueue result.wroteOffset)) ↔
      recordSize m' + END_FILE_MIN_BLANK_LENGTH ≤ s.commitLog.mapedFileQueue.mapedFileSize ∧
        Fits m' ∧ DelayReadable (some cfg.scheduleMessageService) m' ∧
        (storedKeys m').getD [] = m'.getKeys.getD []) := by
  obtain ⟨m₁, tagsCode, result, hprep, hl, hres, -⟩ := storePut_ok hput hok
  have hst : stored cfg env m = some (stamp env m₁) := by rw [stored, hprep]; rfl
  exact ⟨stamp env m₁, result, hst, hres, readsBack_stored_iff hlog (ownCRC_stored hst) hl⟩

/-! ### A topic of 43 characters -/

def config : MessageStoreConfig where
  maxMessageSize := 1024 * 512
  maxMessageSize_lt := by decide
  flushDiskType := .ASYNC_FLUSH
  brokerRole := .ASYNC_MASTER
  scheduleMessageService := ⟨[1000, 5000, 10000], by simp, by decide⟩

def zeroEnv : Env where
  currentTimeMillis := 1700000000000
  beginLockTimestamp := 1700000000001
  entryOrder := ⟨fun m => m.entries, fun _ => .rfl⟩
  mapedFile1 := some fun _ => 0
  mapedFile2 := some fun _ => 0
  msgStoreItemMemory1 := fun _ => 0
  msgStoreItemMemory2 := fun _ => 0
  flushOK := true
  isSlaveOK := true
  transferOK := true

/-- A new store with files of 1024 bytes. -/
def newStore : Store where
  shutdown := false
  writeable := true
  commitLog := ⟨Chain.empty 1024 Chain.pos_1024, ⟨fun _ => none, 0⟩⟩

def host : InetSocketAddress := ⟨.inet4 127 0 0 1, 10911⟩

def messageTo (topic : Text) : MessageExtBrokerInner where
  topic := topic
  flag := 0
  properties := Props.empty.put PROPERTY_KEYS "k".toList
  body := some ⟨[104, 105], by decide⟩
  queueId := 0
  queueOffset := 0
  sysFlag := 0
  bornTimestamp := 1700000000000
  bornHost := host
  storeTimestamp := 0
  storeHost := host
  bodyCRC := 0
  reconsumeTimes := 0
  preparedTransactionOffset := 0
  propertiesString := some ("KEYS".toList ++ [NAME_VALUE_SEPARATOR, 'k', PROPERTY_SEPARATOR])
  tagsCode := 0

/-- The status of a call that returned. -/
def statusOf {α : Type} (r : α × Except Thrown Put) : Option PutMessageStatus :=
  match r.2 with
  | .ok put => some put.result.putMessageStatus
  | .error _ => none

lemma returned_of_status {α : Type} (status : PutMessageStatus) {r : α × Except Thrown Put}
    (h : statusOf r = some status) :
    ∃ put, r = (r.1, .ok put) ∧ put.result.putMessageStatus = status := by
  obtain ⟨s, e | put⟩ := r
  · exact absurd h (by simp [statusOf])
  · exact ⟨put, rfl, by simpa [statusOf] using h⟩

/-- The exception a call ended with. -/
def thrownBy {α : Type} (r : α × Except Thrown Put) : Option Thrown :=
  match r.2 with
  | .ok _ => none
  | .error e => some e

lemma thrown_of_thrownBy {α : Type} {e : Thrown} {r : α × Except Thrown Put}
    (h : thrownBy r = some e) : r.2 = .error e := by
  obtain ⟨s, e' | put⟩ := r
  · exact congrArg _ (Option.some.inj h)
  · exact absurd h (by simp [thrownBy])

lemma logOK_newStore : LogOK newStore.commitLog :=
  ⟨.nil, by intro f hf; simp [newStore, Chain.empty] at hf⟩

/-- The store accepts the topic, for it has 43 characters, and answers PUT_OK; but it has 129
bytes. -/
theorem codec_agreement_long_topic :
    ∃ s' put m' result,
      newStore.putMessage config zeroEnv (messageTo (List.replicate 43 '中')) = (s', .ok put) ∧
      put.result.putMessageStatus = .PUT_OK ∧
      stored config zeroEnv (messageTo (List.replicate 43 '中')) = some m' ∧
      put.result.appendMessageResult = some result ∧
      ¬ ReadsBack m' result (sliceAt s'.commitLog.mapedFileQueue result.wroteOffset)
        (checkMessageAndReturnSize config.maxMessageSize (some config.scheduleMessageService)
          true true (sliceAt s'.commitLog.mapedFileQueue result.wroteOffset)) := by
  obtain ⟨put, hput, hok⟩ := returned_of_status .PUT_OK
    (r := newStore.putMessage config zeroEnv (messageTo (List.replicate 43 '中')))
    (by decide +kernel)
  obtain ⟨m₁, tagsCode, result, hprep, hl, hres, -⟩ := storePut_ok hput hok
  have hst : stored config zeroEnv (messageTo (List.replicate 43 '中')) =
      some (stamp zeroEnv m₁) := by rw [stored, hprep]; rfl
  refine ⟨_, put, _, result, hput, hok, hst, hres, ?_⟩
  rw [readsBack_stored_iff logOK_newStore (ownCRC_stored hst) hl]
  rintro ⟨-, hfits, -⟩
  have hlen : (stored config zeroEnv (messageTo (List.replicate 43 '中'))).map
      (fun m => m.topicData.length) = some 129 := by decide +kernel
  rw [hst, Option.map_some, Option.some.injEq] at hlen
  have := hfits.topic
  omega

theorem codec_agreement_topicTest :
    ∃ s' put m' result,
      newStore.putMessage config zeroEnv (messageTo "TopicTest".toList) = (s', .ok put) ∧
      put.result.putMessageStatus = .PUT_OK ∧
      stored config zeroEnv (messageTo "TopicTest".toList) = some m' ∧
      put.result.appendMessageResult = some result ∧
      ReadsBack m' result (sliceAt s'.commitLog.mapedFileQueue result.wroteOffset)
        (checkMessageAndReturnSize config.maxMessageSize (some config.scheduleMessageService)
          true true (sliceAt s'.commitLog.mapedFileQueue result.wroteOffset)) := by
  obtain ⟨put, hput, hok⟩ := returned_of_status .PUT_OK
    (r := newStore.putMessage config zeroEnv (messageTo "TopicTest".toList))
    (by decide +kernel)
  obtain ⟨m', result, hst, hres, hiff⟩ := codec_agreement logOK_newStore hput hok
  refine ⟨_, put, m', result, hput, hok, hst, hres, hiff.mpr ?_⟩
  have hm : m' = stamp zeroEnv { messageTo "TopicTest".toList with
      storeTimestamp := 1700000000000, bodyCRC := crc32 [104, 105] } := by
    have : stored config zeroEnv (messageTo "TopicTest".toList) = some (stamp zeroEnv
      { messageTo "TopicTest".toList with
        storeTimestamp := 1700000000000, bodyCRC := crc32 [104, 105] }) := rfl
    rw [hst, Option.some.injEq] at this
    exact this
  subst hm
  refine ⟨by decide, ⟨by decide, by decide⟩, fun h => ?_, ?_⟩
  · exact absurd h (by decide)
  · decide

end CloudMQ.Agreement
