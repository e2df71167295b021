import CloudMQ.DenseQueues
import CloudMQ.LogFromZero
import CloudMQ.MasterStore
import CloudMQ.Streams

/-!
From the producers to the consumers, over whole runs of a master store.

The messages that were put form a ledger: a put that is answered with the place of its record
accepts a message, dispatching publishes the first one that is not published yet, and a restart
does neither. The store keeps to that ledger. Whoever pulls from a queue, from wherever and in
batches of whatever size, is answered the records of the messages that were published to it, from
that number on, in their order and each of them once.
-/

namespace CloudMQ.Delivery

open CloudMQ.Buffer CloudMQ.Utf8 CloudMQ.Strings CloudMQ.Message CloudMQ.Record CloudMQ.Codec
open CloudMQ.Segment CloudMQ.Chain CloudMQ.CommitLog CloudMQ.Append CloudMQ.Agreement
open CloudMQ.LogBytes CloudMQ.Recover CloudMQ.Records CloudMQ.Tiling
open CloudMQ.ConsumeQueues CloudMQ.Dispatch CloudMQ.TagFilter CloudMQ.GetMessage CloudMQ.PullScan
open CloudMQ.Puts CloudMQ.Runs CloudMQ.Simulation CloudMQ.MasterStore CloudMQ.Streams
open CloudMQ.DenseQueues CloudMQ.LogFromZero
open CloudMQ.DelayDetour (Appends RecordOf StandsInFile recorded_of_appends)

/-! ### What a run stands for -/

/-- A message as it was written, and the place of its record. -/
structure Placed where
  m : MessageExtBrokerInner
  tagsCode : Int64
  result : AppendMessageResult

namespace Placed

def request (p : Placed) : DispatchRequest := dispatchRequest p.m p.tagsCode p.result

/-- The queue that consumers find the message in, if they find it at all. -/
def Belongs (key : Text × Int32) (p : Placed) : Prop :=
  isConsumed p.m.sysFlag ∧ queueOf p.request = key

instance (key : Text × Int32) : DecidablePred (Belongs key) :=
  fun _ => inferInstanceAs (Decidable (_ ∧ _))

def size (p : Placed) : ℕ := recordSize p.m

end Placed

/-- What the answer of a put accepts. -/
def accepts (m : MessageExtBrokerInner) (tagsCode : Int64) :
    Except Thrown Put → List (Ledger.Op Placed)
  | .error _ => []
  | .ok put =>
    match put.dispatched, put.result.appendMessageResult with
    | some _, some result => [.accept ⟨m, tagsCode, result⟩]
    | _, _ => []

def label (cfg : Config) (s : Master) : Action → List (Ledger.Op Placed)
  | .put env m =>
    (prepare cfg.store env m).elim [] fun p =>
      accepts (stamp env p.1) p.2 (s.store.putMessage cfg.store env m).2
  | .dispatch _ => [.publish]
  | .restart _ _ => []

/-! ### What consumers are answered -/

/-- The store as the threads that answer pulls see it. -/
structure Views (cfg : Config) (s : Master) (v : MessageStore) : Prop where
  running : v.shutdown = false
  readable : v.readable = true
  queueConfig : v.queueConfig = cfg.queue
  table : v.consumeQueueTable = s.consumeQueueTable
  log : v.commitLog = s.store.commitLog.mapedFileQueue

/-- The buffer is the record of the message, and that is number `k` of its queue. -/
structure IsRecord (k : ℕ) (p : Placed) (r : SelectMapedBufferResult) : Prop where
  startOffset : r.startOffset = p.result.wroteOffset
  logicsOffset : p.result.logicsOffset = Int64.ofNat k
  record : RecordOf p.m p.result r.byteBuffer

/-- One record for each of the messages that match, the first of which has the given number. -/
inductive Answers (data : Option SubscriptionData) :
    ℕ → List Placed → List SelectMapedBufferResult → Prop
  | nil (k : ℕ) : Answers data k [] []
  | passed {k : ℕ} {p : Placed} {ps : List Placed} {rs : List SelectMapedBufferResult}
      (hmatch : ¬isMessageMatched data p.tagsCode) (hrest : Answers data (k + 1) ps rs) :
      Answers data k (p :: ps) rs
  | answered {k : ℕ} {p : Placed} {ps : List Placed} {r : SelectMapedBufferResult}
      {rs : List SelectMapedBufferResult} (hmatch : isMessageMatched data p.tagsCode)
      (hr : IsRecord k p r) (hrest : Answers data (k + 1) ps rs) :
      Answers data k (p :: ps) (r :: rs)

/-- The queue is the stream of the ledger. -/
structure Shows (v : MessageStore) (l : Ledger Placed) (key : Text × Int32) : Prop where
  minOffset : (v.queue key).getMinOffsetInQuque = 0
  maxOffset : (v.queue key).getMaxOffsetInQuque = (l.stream (Placed.Belongs key)).length
  pulls : ∀ (data : Option SubscriptionData) (maxMsgNums : Int32) (k : ℕ), 1 ≤ maxMsgNums.toInt →
    (∀ rs o, Follow v key data maxMsgNums k rs o → k ≤ o ∧
      Answers data k (((l.stream (Placed.Belongs key)).drop k).take (o - k)) rs) ∧
    ∃ rs o, Follow v key data maxMsgNums k rs o ∧
      (l.stream (Placed.Belongs key)).length ≤ o ∧
      Answers data k ((l.stream (Placed.Belongs key)).drop k) rs

/-! ### The invariant -/

/-- The record of the message stands in the log, within one file. -/
structure Recorded (q : MapedFileQueue Bytes) (p : Placed) : Prop where
  wroteBytes : p.result.wroteBytes = p.size
  size_lt : p.size < 2 ^ 31
  lt_max : p.result.wroteOffset < q.getMaxOffset
  lt_long : p.result.wroteOffset < 2 ^ 63
  stands : ∃ bs, RecordOf p.m p.result bs ∧ StandsInFile q p.result.wroteOffset bs

/-- The log, and the records in it. -/
structure Logged (cfg : Config) (q : MapedFileQueue Bytes) (ps : List Placed) : Prop where
  tiled : Tiled (Readback cfg.store (some cfg.store.scheduleMessageService)) q
  size : 8 ≤ q.mapedFileSize
  fromZero : FromZero q
  recorded : ∀ p ∈ ps, Recorded q p
  ordered : ps.Pairwise fun p p' => p.result.wroteOffset < p'.result.wroteOffset

/-- The messages of a queue are numbered, and the counters go on from there. -/
structure Counted (c : Counters) (l : Ledger Placed) : Prop where
  queueId : ∀ p ∈ l.accepted, 0 ≤ p.m.queueId.toInt
  numbered : ∀ i p, l.accepted[i]? = some p → isConsumed p.m.sysFlag →
    p.result.logicsOffset = Int64.ofNat
      ((l.accepted.take i).filter (Placed.Belongs (queueOf p.request))).length
  counters : ∀ topic (queueId : Int32), 0 ≤ queueId.toInt →
    (c.topicQueueTable (queueKey topic queueId)).getD 0 =
      Int64.ofNat (l.count (Placed.Belongs (topic, queueId)))

def unit (p : Placed) : CQUnit := cqUnit p.request

/-- Every queue holds the entries of its stream. -/
structure Queued (cfg : Config) (table : ConsumeQueueTable) (l : Ledger Placed) : Prop where
  dense : ∀ key, Dense (findConsumeQueue cfg.queue key table)
  entries : ∀ key, (findConsumeQueue cfg.queue key table).entries =
    (l.stream (Placed.Belongs key)).map unit
  queueId : ∀ key, table key ≠ none → 0 ≤ key.2.toInt

structure Inv (cfg : Config) (s : Master) (l : Ledger Placed) : Prop where
  logged : Logged cfg s.store.commitLog.mapedFileQueue l.accepted
  sent : (s.dispatched ++ s.requests).map Handed.request = l.accepted.map Placed.request
  published : l.published = s.dispatched.length
  counted : Counted s.store.commitLog.counters l
  queued : Queued cfg s.consumeQueueTable l

/-- What a step needs. The record fits a file and can be read back, and queue ids are not
negative. A request that is dispatched finds the store writeable and a file. When the store is
shut down, the last file of the log has room and ends with a record; when it is started, its
queues are all listed. -/
def Allowed (cfg : Config) (s : Master) : Action → Prop
  | .put env m => ∀ m' tagsCode, prepare cfg.store env m = some (m', tagsCode) →
      0 ≤ m'.queueId.toInt ∧ Fits m' ∧
      DelayReadable (some cfg.store.scheduleMessageService) m' ∧
      recordSize m' + END_FILE_MIN_BLANK_LENGTH ≤
        s.store.commitLog.mapedFileQueue.mapedFileSize ∧
      s.store.commitLog.mapedFileQueue.getMaxOffset +
        s.store.commitLog.mapedFileQueue.mapedFileSize < 2 ^ 63
  | .dispatch env => ∀ h ∈ s.requests.head?, isConsumed h.request.sysFlag →
      s.store.writeable ∧ ∃ i < ConsumeQueue.MaxRetries, env.consumeQueueFile i
  | .restart checkCRCOnRecover order =>
    Restart.Quiet (recoverCheck cfg.store (some cfg.store.scheduleMessageService) checkCRCOnRecover)
      s.store.commitLog.mapedFileQueue ∧
    (∀ last ∈ s.store.commitLog.mapedFileQueue.mapedFiles.getLast?,
      last.wrotePostion < s.store.commitLog.mapedFileQueue.mapedFileSize) ∧
    ∀ key cq, s.consumeQueueTable key = some cq → cq.mapedFileQueue.mapedFiles ≠ [] → key ∈ order

/-! ### Keys and types -/

/-- Different queues with ids that are not negative have different keys. -/
lemma queueKey_inj {topic topic' : Text} {queueId queueId' : Int32} (h : 0 ≤ queueId.toInt)
    (h' : 0 ≤ queueId'.toInt) (heq : queueKey topic queueId = queueKey topic' queueId') :
    (topic, queueId) = (topic', queueId') := by
  have hdigits : ∀ n : Int32, 0 ≤ n.toInt → '-' ∉ valueOf n := by
    intro n hn hmem
    rw [valueOf, if_neg (by omega)] at hmem
    exact absurd (Nat.isDigit_of_mem_toDigits (by omega) (by omega) hmem) (by decide)
  have hrev := congrArg List.reverse heq
  simp only [queueKey, List.reverse_append, List.reverse_cons, List.append_assoc,
    List.singleton_append] at hrev
  have hmem := hdigits queueId h
  have hmem' := hdigits queueId' h'
  -- behind the last hyphen there are only digits
  have hsplit : (valueOf queueId).reverse = (valueOf queueId').reverse ∧
      topic.reverse = topic'.reverse := by
    have h1 := congrArg (List.takeWhile (· ≠ '-')) hrev
    have h2 := congrArg (List.dropWhile (· ≠ '-')) hrev
    have hall : ∀ n : Int32, '-' ∉ valueOf n →
        ∀ c ∈ (valueOf n).reverse, decide (c ≠ '-') = true := by
      intro n hn c hc
      rw [decide_eq_true_eq]
      rintro rfl
      exact hn (List.mem_reverse.mp hc)
    rw [List.takeWhile_append_of_pos (hall _ hmem), List.takeWhile_append_of_pos (hall _ hmem')]
      at h1
    rw [List.dropWhile_append_of_pos (hall _ hmem), List.dropWhile_append_of_pos (hall _ hmem')]
      at h2
    simpa using And.intro h1 h2
  obtain ⟨hid, htopic⟩ := hsplit
  have hparse := congrArg parseInt (List.reverse_injective hid)
  rw [parseInt_valueOf h, parseInt_valueOf h', Option.some.injEq] at hparse
  rw [List.reverse_injective htopic, hparse]

/-- The type of a message is one of four. -/
lemma isConsumed_iff (sysFlag : Int32) : isConsumed sysFlag ↔
    ¬getTransactionValue sysFlag = TransactionPreparedType ∧
      ¬getTransactionValue sysFlag = TransactionRollbackType := by
  have hbits : (getTransactionValue sysFlag).toBitVec =
      (sysFlag.toBitVec &&& BitVec.twoPow 32 2) ||| (sysFlag.toBitVec &&& BitVec.twoPow 32 3) := by
    rw [← BitVec.and_or_distrib_left]
    rfl
  rw [BitVec.and_twoPow, BitVec.and_twoPow] at hbits
  unfold isConsumed
  simp only [← Int32.toBitVec_inj, hbits]
  split_ifs <;> decide

/-! ### Putting -/

section Put

variable {cfg : Config} {env : Env} {m : MessageExtBrokerInner} {store store' : Store}
  {r : Except Thrown Put} {q q' : MapedFileQueue Bytes} {ps : List Placed} {p : Placed}
  {log log' : Log} {result : AppendMessageResult} {tagsCode : Int64} {l : Ledger Placed}
  {c c' : Counters}

lemma Placed.size_pos (p : Placed) : 0 < p.size := by
  unfold size recordSize
  omega

/-- What a put does to the log is what the log does with it, if anything. -/
lemma storePut_log {mcfg : MessageStoreConfig}
    (hput : store.putMessage mcfg env m = (store', r)) :
    store'.commitLog = store.commitLog ∨
      store'.commitLog = (CommitLog.putMessage mcfg env m store.commitLog).1 := by
  unfold Store.putMessage at hput
  split at hput
  · exact .inl (by rw [← (Prod.mk.inj hput).1])
  · split at hput
    · exact .inl (by rw [← (Prod.mk.inj hput).1])
    · simp only [Prod.mk.injEq] at hput
      obtain ⟨rfl, -⟩ := hput
      exact .inr rfl

lemma Recorded.mono (h : Recorded q p) (hag : Agrees q q')
    (hsize : q'.mapedFileSize = q.mapedFileSize) (hmax : q.getMaxOffset ≤ q'.getMaxOffset) :
    Recorded q' p where
  wroteBytes := h.wroteBytes
  size_lt := h.size_lt
  lt_max := h.lt_max.trans_le hmax
  lt_long := h.lt_long
  stands := by
    obtain ⟨bs, hrec, hst, hin⟩ := h.stands
    exact ⟨bs, hrec, hst.mono hag, hsize.symm ▸ hin⟩

lemma Logged.logOK (h : Logged cfg log.mapedFileQueue ps) : LogOK log :=
  ⟨h.tiled.chained, h.tiled.mapped⟩

/-- The log grows, and keeps the records that it has. -/
lemma Logged.put (h : Logged cfg store.commitLog.mapedFileQueue ps)
    (hfits : ∀ m' tagsCode, prepare cfg.store env m = some (m', tagsCode) → Fits m' ∧
      DelayReadable (some cfg.store.scheduleMessageService) m')
    (hkept : Kept store.commitLog store'.commitLog)
    (hput : store.putMessage cfg.store env m = (store', r)) :
    Logged cfg store'.commitLog.mapedFileQueue ps := by
  have hmakes : ∀ m', stored cfg.store env m = some m' → Makes cfg.store.maxMessageSize
      (Readback cfg.store (some cfg.store.scheduleMessageService)) m' := by
    intro m' hm' bh sh qo o hb hs hsize
    have hcrc := ownCRC_stored hm'
    obtain ⟨⟨m₁, tagsCode⟩, hprep, rfl⟩ := Option.map_eq_some_iff.mp hm'
    obtain ⟨⟨htopic, hprops⟩, hd⟩ := hfits m₁ tagsCode hprep
    have hf : Fits (stamp env m₁) := ⟨htopic, hprops⟩
    exact ⟨makes_good hcrc hf bh sh qo o hb hs hsize, hf, hd⟩
  have hboth : Tiled (Readback cfg.store (some cfg.store.scheduleMessageService))
      store'.commitLog.mapedFileQueue ∧ FromZero store'.commitLog.mapedFileQueue := by
    rcases storePut_log hput with heq | heq
    · rw [heq]
      exact ⟨h.tiled, h.fromZero⟩
    · rw [heq]
      exact ⟨(tiled_putMessage (fun r hr => hr.good) h.tiled h.size hmakes).1,
        h.fromZero.putMessage h.logOK⟩
  exact {
    tiled := hboth.1
    size := hkept.size_eq ▸ h.size
    fromZero := hboth.2
    recorded := fun p hp => (h.recorded p hp).mono hkept.agrees hkept.size_eq hkept.max_le
    ordered := h.ordered }

/-- A put that hands a request on has appended the record, if that fits a file. -/
lemma appends_of_dispatched {mcfg : MessageStoreConfig} {put : Put} {m' : MessageExtBrokerInner}
    {request : DispatchRequest} (hlog : LogOK store.commitLog)
    (hput : store.putMessage mcfg env m = (store', .ok put))
    (hprep : prepare mcfg env m = some (m', tagsCode))
    (hres : put.result.appendMessageResult = some result) (hdisp : put.dispatched = some request)
    (hroom : recordSize (stamp env m') + END_FILE_MIN_BLANK_LENGTH ≤
      store.commitLog.mapedFileQueue.mapedFileSize) :
    Appends mcfg env m store.commitLog store'.commitLog put result := by
  unfold Store.putMessage at hput
  split_ifs at hput
  · cases (Prod.mk.inj hput).2
    cases hdisp
  · cases (Prod.mk.inj hput).2
    cases hdisp
  · obtain ⟨rfl, hok⟩ := Prod.mk.inj hput
    have hcall : CommitLog.putMessage mcfg env m store.commitLog = (_, .ok put) := Prod.ext rfl hok
    refine ⟨hcall, hres, ?_⟩
    simp only [CommitLog.putMessage, hprep] at hcall
    split at hcall
    · cases (Prod.mk.inj hcall).2
    · cases (Prod.mk.inj hcall).2
      cases hdisp
    · next log₁ result₁ hl =>
      cases (Prod.mk.inj hcall).2
      obtain rfl := Option.some.inj hres
      obtain ⟨-, ⟨_, hout, hstatus, -⟩ | ⟨hend, -⟩⟩ := putLocked_spec hlog hl
      · obtain rfl := Locked.stored.inj hout
        exact hstatus
      · exact absurd hroom (Nat.not_le.mpr (hend _ rfl).1)

/-- **A record more.** -/
lemma Logged.wrote (h : Logged cfg log.mapedFileQueue ps)
    (h' : Logged cfg log'.mapedFileQueue ps) (hw : WroteMessage m log log' result) {bs : Bytes}
    (hrec : RecordOf m result bs) (hst : StandsInFile log'.mapedFileQueue result.wroteOffset bs)
    (hlong : log.mapedFileQueue.getMaxOffset + log.mapedFileQueue.mapedFileSize < 2 ^ 63) :
    Logged cfg log'.mapedFileQueue (ps ++ [⟨m, tagsCode, result⟩]) := by
  have hend := hw.end_eq
  have hbytes := hw.wroteBytes
  have hle := hw.offset_le
  have hpos : 0 < recordSize m := by
    unfold recordSize
    omega
  refine ⟨h'.tiled, h'.size, h'.fromZero, List.forall_mem_append.mpr
    ⟨h'.recorded, List.forall_mem_singleton.mpr ?_⟩,
    List.pairwise_append.mpr ⟨h'.ordered, List.pairwise_singleton _ _, fun p hp p' hp' => ?_⟩⟩
  · exact ⟨hbytes, hw.size_lt, by change result.wroteOffset < _; omega,
      by change result.wroteOffset < _; omega, bs, hrec, hst⟩
  · rw [List.mem_singleton.mp hp']
    exact (h.recorded p hp).lt_max.trans_le hw.max_le

lemma getD_touch (c : Counters) (m : MessageExtBrokerInner) (key : Text) :
    ((c.touch m).topicQueueTable key).getD 0 = (c.topicQueueTable key).getD 0 := by
  simp only [Counters.touch, Function.update_apply]
  split_ifs with hkey
  · rw [hkey]
    rfl
  · rfl

lemma Counted.idle (h : Counted c l) (hidle : Idle m c c') : Counted c' l := by
  rcases hidle with rfl | rfl
  · exact h
  · exact ⟨h.queueId, h.numbered, fun topic queueId hid =>
      (getD_touch c m _).trans (h.counters topic queueId hid)⟩

/-- **The counters** go on with a message that was written. -/
lemma Counted.wrote (h : Counted log.counters l) (hw : WroteMessage m log log' result)
    (hid : 0 ≤ m.queueId.toInt) : Counted log'.counters (l.accept ⟨m, tagsCode, result⟩) := by
  have hkey : queueOf (Placed.request ⟨m, tagsCode, result⟩) = (m.topic, m.queueId) := rfl
  refine ⟨List.forall_mem_append.mpr ⟨h.queueId, List.forall_mem_singleton.mpr hid⟩,
    fun i p hp hconsumed => ?_, fun topic queueId hid' => ?_⟩
  · rw [Ledger.accepted_accept] at hp ⊢
    rcases Nat.lt_or_ge i l.accepted.length with hi | hi
    · rw [List.getElem?_append_left hi] at hp
      rw [List.take_append_of_le_length hi.le]
      exact h.numbered i p hp hconsumed
    · have hlast : i = l.accepted.length := by
        have hlt := (List.getElem?_eq_some_iff.mp hp).1
        rw [List.length_append, List.length_singleton] at hlt
        omega
      rw [hlast, List.getElem?_concat_length, Option.some.injEq] at hp
      subst hp
      obtain ⟨hprep, hroll⟩ := (isConsumed_iff _).mp hconsumed
      rw [hlast, List.take_left, hkey]
      simp only [hw.logicsOffset, recordQueueOffset, if_neg hprep, if_neg hroll]
      exact (getD_touch _ _ _).trans (h.counters _ _ hid)
  · have hold := h.counters topic queueId hid'
    rw [hw.counters, Ledger.count_accept, Counters.advance]
    by_cases hconsumed : isConsumed m.sysFlag
    · obtain ⟨hprep, hroll⟩ := (isConsumed_iff _).mp hconsumed
      simp only [if_neg hprep, if_neg hroll, Function.update_apply, recordQueueOffset]
      by_cases hsame : (topic, queueId) = (m.topic, m.queueId)
      · obtain ⟨rfl, rfl⟩ := Prod.mk.inj hsame
        rw [if_pos rfl, if_pos ⟨hconsumed, hkey⟩, Option.getD_some, getD_touch, hold,
          Int64.ofNat_add]
        rfl
      · have hne : ¬queueKey topic queueId = queueKey m.topic m.queueId :=
          fun heq => hsame (queueKey_inj hid' hid heq)
        rw [if_neg hne, if_neg fun hb => hsame (hb.2.symm.trans hkey), getD_touch, hold,
          Nat.add_zero]
    · have hkeep : ∀ c' : Counters, ((if getTransactionValue m.sysFlag = TransactionPreparedType
          then { log.counters.touch m with
            tranStateTableOffset := (log.counters.touch m).tranStateTableOffset + 1 }
          else if getTransactionValue m.sysFlag = TransactionRollbackType
            then log.counters.touch m else c').topicQueueTable (queueKey topic queueId)).getD 0 =
          (log.counters.topicQueueTable (queueKey topic queueId)).getD 0 := by
        intro c'
        rw [isConsumed_iff, not_and_or, not_not, not_not] at hconsumed
        rcases hconsumed with hprep | hroll
        · rw [if_pos hprep]
          exact getD_touch _ _ _
        · rw [if_pos hroll]
          split_ifs
          · exact getD_touch _ _ _
          · exact getD_touch _ _ _
      have hnot : ¬Placed.Belongs (topic, queueId) ⟨m, tagsCode, result⟩ :=
        fun hb => hconsumed hb.1
      rw [if_neg hnot, Nat.add_zero]
      exact (hkeep _).trans hold

end Put

/-! ### Dispatching -/

section Dispatch

variable {cfg : Config} {table : ConsumeQueueTable} {l l' : Ledger Placed} {p : Placed}
  {q : MapedFileQueue Bytes} {c : Counters} {key : Text × Int32}

/-- A record does not stand before the place of its number. -/
lemma index_le {ps : List Placed}
    (h : ps.Pairwise fun p p' => p.result.wroteOffset < p'.result.wroteOffset) {i : ℕ}
    (hp : ps[i]? = some p) : i ≤ p.result.wroteOffset := by
  induction i generalizing p with
  | zero => exact Nat.zero_le _
  | succ i ih =>
    obtain ⟨hlt, rfl⟩ := List.getElem?_eq_some_iff.mp hp
    have hi : i < ps.length := by omega
    have hle := ih (List.getElem?_eq_getElem hi)
    have hnext := List.pairwise_iff_getElem.mp h i (i + 1) hi hlt (Nat.lt_succ_self i)
    omega

lemma findConsumeQueue_update (qcfg : QueueConfig) (key key' : Text × Int32) (cq : ConsumeQueue) :
    findConsumeQueue qcfg key' (Function.update table key (some cq)) =
      if key' = key then cq else findConsumeQueue qcfg key' table := by
  rw [findConsumeQueue, Function.update_apply]
  split_ifs
  · rfl
  · rfl

lemma stream_publish (hvisible : l'.visible = l.visible ++ [p]) (key : Text × Int32) :
    l'.stream (Placed.Belongs key) =
      l.stream (Placed.Belongs key) ++ if Placed.Belongs key p then [p] else [] := by
  rw [Ledger.stream, hvisible, List.filter_append, Ledger.stream]
  by_cases hb : Placed.Belongs key p
  · simp [hb]
  · simp [hb]

/-- The place and the size of a record, in an entry. -/
lemma unit_of_recorded (h : Recorded q p) :
    (unit p).offset.toInt = p.result.wroteOffset ∧ (unit p).size.toInt = p.size ∧
      (unit p).isValid := by
  have hoffset : (unit p).offset.toInt = p.result.wroteOffset := Int64.toInt_ofNat_of_lt h.lt_long
  have hsize : (unit p).size.toInt = p.size := by
    change (Int32.ofNat p.result.wroteBytes).toInt = _
    rw [h.wroteBytes]
    exact Int32.toInt_ofNat_of_lt h.size_lt
  have hpos := p.size_pos
  refine ⟨hoffset, hsize, ?_⟩
  simp only [CQUnit.isValid, Bool.and_eq_true, decide_eq_true_eq]
  omega

lemma Queued.accept (h : Queued cfg table l) (x : Placed) : Queued cfg table (l.accept x) :=
  ⟨h.dense, fun key => (h.entries key).trans (by rw [Ledger.stream_accept]), h.queueId⟩

/-- **The first request** that waits puts the next entry of its queue. -/
lemma Queued.dispatch (h : Queued cfg table l) (hlog : Logged cfg q l.accepted)
    (hcount : Counted c l) (hp : l.accepted[l.published]? = some p) {env : DispatchEnv}
    {writeable : Bool} (hallow : isConsumed p.m.sysFlag →
      writeable ∧ ∃ i < ConsumeQueue.MaxRetries, env.consumeQueueFile i)
    (hvisible : l'.visible = l.visible ++ [p]) :
    Queued cfg (dispatchQueue cfg.queue env writeable p.request table).1 l' := by
  by_cases hconsumed : isConsumed p.m.sysFlag
  swap
  · have hsame : ∀ key, l'.stream (Placed.Belongs key) = l.stream (Placed.Belongs key) := by
      intro key
      rw [stream_publish hvisible, if_neg fun hb => hconsumed hb.1, List.append_nil]
    have htable : (dispatchQueue cfg.queue env writeable p.request table).1 = table := by
      rw [dispatchQueue, if_neg (show ¬isConsumed p.request.sysFlag from hconsumed)]
    rw [htable]
    exact ⟨h.dense, fun key => (h.entries key).trans (by rw [hsame]), h.queueId⟩
  obtain ⟨hwriteable, hfile⟩ := hallow hconsumed
  have hmem := List.mem_of_getElem? hp
  obtain ⟨hoffset, -, hvalid⟩ := unit_of_recorded (hlog.recorded p hmem)
  have hdense := h.dense (queueOf p.request)
  have hentries := h.entries (queueOf p.request)
  -- the number of the message is the length of its queue
  have hnumber : p.request.consumeQueueOffset.toInt.toNat =
      (findConsumeQueue cfg.queue (queueOf p.request) table).entries.length := by
    have hlogics := hcount.numbered l.published p hp hconsumed
    change p.result.logicsOffset.toInt.toNat = _
    have hle := index_le hlog.ordered hp
    have hshort := List.length_filter_le (Placed.Belongs (queueOf p.request))
      (l.accepted.take l.published)
    have hlong := (hlog.recorded p hmem).lt_long
    rw [List.length_take] at hshort
    rw [hlogics, Int64.toInt_ofNat_of_lt (by omega), Int.toNat_natCast, hentries, List.length_map]
    rfl
  have hlt : (findConsumeQueue cfg.queue (queueOf p.request) table).maxPhysicOffset.toInt <
      (unit p).offset.toInt := by
    refine hdense.maxPhysicOffset (by omega) fun v hv => ?_
    rw [hentries] at hv
    obtain ⟨p', hp', rfl⟩ := List.mem_map.mp hv
    obtain ⟨i, hi⟩ := List.getElem?_of_mem (List.mem_of_mem_filter hp')
    have hilt := (List.getElem?_eq_some_iff.mp hi).1
    rw [Ledger.visible, List.length_take] at hilt
    rw [Ledger.visible, List.getElem?_take_of_lt (by omega)] at hi
    obtain ⟨hi', rfl⟩ := List.getElem?_eq_some_iff.mp hi
    obtain ⟨hlast, rfl⟩ := List.getElem?_eq_some_iff.mp hp
    have hbefore := List.pairwise_iff_getElem.mp hlog.ordered i l.published hi' hlast (by omega)
    rw [hoffset, (unit_of_recorded (hlog.recorded _ (List.getElem_mem hi'))).1]
    exact_mod_cast hbefore
  obtain ⟨cq', hput, hdense', hentries'⟩ := hdense.putRetrying hvalid hlt hfile
  have htable : (dispatchQueue cfg.queue env writeable p.request table).1 =
      Function.update table (queueOf p.request) (some cq') := by
    rw [dispatchQueue, if_pos (show isConsumed p.request.sysFlag from hconsumed)]
    simp only [putMessagePostionInfo, ConsumeQueue.putMessagePostionInfoWrapper, hwriteable,
      if_true, hnumber]
    exact congrArg (fun r : ConsumeQueue × Bool =>
      Function.update table (queueOf p.request) (some r.1)) hput
  rw [htable]
  refine ⟨fun key => ?_, fun key => ?_, fun key hkey => ?_⟩
  · rw [findConsumeQueue_update]
    split_ifs
    · exact hdense'
    · exact h.dense key
  · rw [findConsumeQueue_update, stream_publish hvisible, List.map_append]
    split_ifs with hkey hb hb
    · rw [hentries', hentries, hkey]
      rfl
    · exact absurd ⟨hconsumed, hkey.symm⟩ hb
    · exact absurd hb.2.symm hkey
    · rw [h.entries key, List.map_nil, List.append_nil]
  · rw [Function.update_apply] at hkey
    split_ifs at hkey with heq
    · rw [heq]
      exact hcount.queueId p hmem
    · exact h.queueId key hkey

end Dispatch

/-! ### A restart -/

section Recovery

variable {cfg : Config} {table : ConsumeQueueTable} {l : Ledger Placed}
  {q : MapedFileQueue Bytes} {c : Counters}

lemma recoverTopicQueueTable_snoc (order : List (Text × Int32)) (key : Text × Int32) :
    recoverTopicQueueTable (order ++ [key]) table =
      (table key).elim (recoverTopicQueueTable order table) fun cq =>
        Function.update (recoverTopicQueueTable order table) (queueKey key.1 key.2)
          (some (Int64.ofNat cq.getMaxOffsetInQuque)) := by
  rw [recoverTopicQueueTable, List.foldl_append, List.foldl_cons, List.foldl_nil]
  cases table key <;> rfl

/-- The counter of a queue that is listed. -/
lemma recoverTopicQueueTable_apply (hids : ∀ key, table key ≠ none → 0 ≤ key.2.toInt)
    {topic : Text} {queueId : Int32} (hid : 0 ≤ queueId.toInt) (order : List (Text × Int32)) :
    recoverTopicQueueTable order table (queueKey topic queueId) =
      if (topic, queueId) ∈ order then
        (table (topic, queueId)).map fun cq => Int64.ofNat cq.getMaxOffsetInQuque
      else none := by
  induction order using List.reverseRecOn with
  | nil => rfl
  | append_singleton order key ih =>
    rw [recoverTopicQueueTable_snoc]
    by_cases hkey : (topic, queueId) = key
    · rw [if_pos (by simp [hkey])]
      cases hcq : table key with
      | none =>
        rw [Option.elim_none, ih, hkey, hcq]
        simp
      | some cq =>
        rw [Option.elim_some, ← hkey, Function.update_self, hkey, hcq]
        rfl
    · have hmem : (topic, queueId) ∈ order ++ [key] ↔ (topic, queueId) ∈ order := by
        rw [List.mem_append, List.mem_singleton, or_iff_left hkey]
      simp only [hmem]
      cases hcq : table key with
      | none => exact ih
      | some cq =>
        have hne : queueKey topic queueId ≠ queueKey key.1 key.2 := fun heq =>
          hkey (queueKey_inj hid (hids key (by simp [hcq])) heq)
        rw [Option.elim_some, Function.update_of_ne hne]
        exact ih

/-- The queues that are found again have their entries. -/
lemma Queued.restart (h : Queued cfg table l) (hlog : Logged cfg q l.accepted) {minPhyOffset : ℤ}
    (hmin : minPhyOffset ≤ 0) : Queued cfg (recoverConsumeQueue minPhyOffset table) l := by
  have hboth : ∀ key, Dense (findConsumeQueue cfg.queue key
        (recoverConsumeQueue minPhyOffset table)) ∧
      (findConsumeQueue cfg.queue key (recoverConsumeQueue minPhyOffset table)).entries =
        (findConsumeQueue cfg.queue key table).entries := by
    intro key
    have hold := h.dense key
    have hentries := h.entries key
    have hplaces : ∀ v ∈ (findConsumeQueue cfg.queue key table).entries,
        minPhyOffset ≤ v.offset.toInt := by
      intro v hv
      rw [hentries] at hv
      obtain ⟨p, hp, rfl⟩ := List.mem_map.mp hv
      have hmem := List.mem_of_mem_take (List.mem_of_mem_filter hp)
      rw [(unit_of_recorded (hlog.recorded p hmem)).1]
      omega
    have hnew := dense_newQueue cfg.queue.size_pos cfg.queue.dvd_size
    unfold findConsumeQueue recoverConsumeQueue at *
    cases hcq : table key with
    | none => exact ⟨hnew, rfl⟩
    | some cq =>
      rw [hcq, Option.getD_some] at hold hplaces
      simp only [Option.bind_some, Option.getD_some]
      split_ifs with hnil
      · refine ⟨hnew, ?_⟩
        simp [ConsumeQueue.entries, Units.units, newQueue, Chain.empty, hnil]
      · exact hold.restart hplaces
  refine ⟨fun key => (hboth key).1, fun key => (hboth key).2.trans (h.entries key),
    fun key hkey => h.queueId key fun hnone => hkey ?_⟩
  rw [recoverConsumeQueue, hnone]
  rfl

/-- **The counters** are where they were, when every request was dispatched. -/
lemma Counted.restart (h : Counted c l) (hq : Queued cfg table l)
    (hall : l.visible = l.accepted) {order : List (Text × Int32)}
    (horder : ∀ key, table key ≠ none → key ∈ order) (offset : Int64) :
    Counted ⟨recoverTopicQueueTable order table, offset⟩ l := by
  refine ⟨h.queueId, h.numbered, fun topic queueId hid => ?_⟩
  have hcount : l.count (Placed.Belongs (topic, queueId)) =
      (findConsumeQueue cfg.queue (topic, queueId) table).entries.length := by
    rw [hq.entries, List.length_map, Ledger.stream, hall, Ledger.count]
  have hmax := (hq.dense (topic, queueId)).getMaxOffsetInQuque
  dsimp only
  rw [hcount, ← hmax, recoverTopicQueueTable_apply hq.queueId hid]
  unfold findConsumeQueue
  cases hcq : table (topic, queueId) with
  | none =>
    rw [Option.map_none, ite_self]
    simp [ConsumeQueue.getMaxOffsetInQuque, newQueue, Chain.empty, MapedFileQueue.getMaxOffset]
  | some cq =>
    rw [if_pos (horder _ (by simp [hcq]))]
    rfl

end Recovery

/-! ### Runs -/

section Steps

variable {cfg : Config} {s s' : Master} {l : Ledger Placed}

lemma Inv.put {env : Env} {m : MessageExtBrokerInner} (h : Inv cfg s l)
    (hallow : Allowed cfg s (.put env m)) (hs : MasterStore.step cfg s (.put env m) = some s') :
    ∃ l', run Ledger.step l (label cfg s (.put env m)) = some l' ∧ Inv cfg s' l' := by
  rcases hput : s.store.putMessage cfg.store env m with ⟨store, r⟩
  rw [MasterStore.step, hput, Option.some.injEq] at hs
  subst hs
  obtain ⟨hkept, hout, -⟩ := storePut_outcome h.logged.logOK hput
  have hlog := h.logged.put
    (fun m' tagsCode hprep => ⟨(hallow m' tagsCode hprep).2.1, (hallow m' tagsCode hprep).2.2.1⟩)
    hkept hput
  rw [label, hput]
  cases hout with
  | failed m' idle dispatched =>
    have hnone : MasterStore.handed store.commitLog.mapedFileQueue r = [] ∧
        ∀ m tagsCode, accepts m tagsCode r = [] := by
      cases r with
      | error e => exact ⟨rfl, fun _ _ => rfl⟩
      | ok put =>
        simp only [MasterStore.handed, accepts, dispatched put rfl, implies_true, and_self]
    have hlabel : ((prepare cfg.store env m).elim [] fun p => accepts (stamp env p.1) p.2 r) =
        [] := by
      cases prepare cfg.store env m with
      | none => rfl
      | some p => exact hnone.2 _ _
    rw [hnone.1, hlabel]
    refine ⟨l, rfl, hlog, ?_, h.published, h.counted.idle idle, h.queued⟩
    rw [List.append_nil]
    exact h.sent
  | blank m' tagsCode result put prepared returned appended dispatched room idle =>
    exact absurd (hallow m' tagsCode prepared).2.2.2.1 (Nat.not_le.mpr room)
  | wrote m' tagsCode result put prepared returned appended dispatched room wrote =>
    obtain ⟨hid, -, -, -, hlong⟩ := hallow m' tagsCode prepared
    have happ := appends_of_dispatched h.logged.logOK (returned ▸ hput) prepared appended dispatched
      room
    obtain ⟨m'', tagsCode', bs, hprep, -, -, hrec, hst⟩ :=
      recorded_of_appends h.logged.logOK happ
    obtain ⟨rfl, rfl⟩ := Prod.mk.inj (Option.some.inj (prepared.symm.trans hprep))
    simp only [prepared, Option.elim_some, returned, accepts, MasterStore.handed, dispatched,
      appended]
    refine ⟨_, rfl, h.logged.wrote hlog wrote hrec hst hlong, ?_, h.published, h.counted.wrote wrote hid,
      h.queued.accept _⟩
    rw [← List.append_assoc, List.map_append, h.sent, Ledger.accepted_accept, List.map_append]
    rfl

lemma Inv.dispatch {env : DispatchEnv} (h : Inv cfg s l) (hallow : Allowed cfg s (.dispatch env))
    (hs : MasterStore.step cfg s (.dispatch env) = some s') :
    ∃ l', run Ledger.step l (label cfg s (.dispatch env)) = some l' ∧ Inv cfg s' l' := by
  rw [MasterStore.step] at hs
  cases hreq : s.requests with
  | nil => simp [hreq] at hs
  | cons hd rest =>
    simp only [hreq, Option.some.injEq] at hs
    subst hs
    -- the first request that waits is the first one that is not published
    have hsent := h.sent
    rw [hreq] at hsent
    obtain ⟨p, hp, hrequest⟩ : ∃ p, l.accepted[l.published]? = some p ∧
        p.request = hd.request := by
      have hget := congrArg (fun rs : List DispatchRequest => rs[l.published]?) hsent
      simp only [List.getElem?_map, h.published] at hget
      rw [List.getElem?_append_right le_rfl, Nat.sub_self, List.getElem?_cons_zero,
        Option.map_some] at hget
      obtain ⟨p, hp, heq⟩ := Option.map_eq_some_iff.mp hget.symm
      exact ⟨p, by rw [h.published]; exact hp, heq⟩
    obtain ⟨l', hstep, haccepted, hpublished, hvisible⟩ := Ledger.visible_publish hp
    refine ⟨l', run_cons.mpr ⟨l', hstep, rfl⟩, ?_, ?_, ?_, ?_, ?_⟩
    · rw [haccepted]
      exact h.logged
    · rw [haccepted, ← h.sent, hreq]
      simp
    · rw [hpublished, h.published, List.length_append, List.length_singleton]
    · exact ⟨haccepted ▸ h.counted.queueId, haccepted ▸ h.counted.numbered, by
        simpa only [Ledger.count, haccepted] using h.counted.counters⟩
    · rw [← hrequest]
      refine h.queued.dispatch h.logged h.counted hp (fun hconsumed => ?_) hvisible
      exact hallow hd (by rw [hreq]; rfl) (hrequest ▸ hconsumed)

lemma Inv.restart {checkCRCOnRecover : Bool} {order : List (Text × Int32)} (h : Inv cfg s l)
    (hallow : Allowed cfg s (.restart checkCRCOnRecover order))
    (hs : MasterStore.step cfg s (.restart checkCRCOnRecover order) = some s') :
    ∃ l', run Ledger.step l (label cfg s (.restart checkCRCOnRecover order)) = some l' ∧
      Inv cfg s' l' := by
  rw [MasterStore.step] at hs
  split at hs
  swap
  · exact absurd hs (by simp)
  next hreq =>
  simp only [MasterStore.restart, Option.bind_eq_bind, Option.bind_eq_some_iff, Option.pure_def,
    Option.some.injEq, Prod.exists] at hs
  obtain ⟨q, hq, table, offset, -, rfl⟩ := hs
  obtain ⟨hquiet, hroom, horder⟩ := hallow
  obtain ⟨htiled, hsize⟩ := Restart.tiled_restart (fun r hr => hr.good) h.logged.tiled hquiet hq
  obtain ⟨hfiles, -⟩ := mapedFiles_recoverNormally h.logged.tiled hquiet hroom hq
  obtain ⟨-, -, hzero, hag, hmax⟩ := resumed h.logged.tiled.chained h.logged.tiled.mapped
    h.logged.fromZero hfiles hsize
  have hlog : Logged cfg q l.accepted := {
    tiled := htiled
    size := hsize ▸ h.logged.size
    fromZero := hzero
    recorded := fun p hp => (h.logged.recorded p hp).mono hag hsize hmax.ge
    ordered := h.logged.ordered }
  have hmin : q.getMinOffset ≤ 0 := by
    rw [MapedFileQueue.getMinOffset]
    cases hhead : q.mapedFiles.head? with
    | none => exact Int.negSucc_le_zero 0
    | some f =>
      have := hzero.starts f hhead
      dsimp only
      omega
  have hqueued := h.queued.restart h.logged hmin
  have hall : l.visible = l.accepted := by
    refine Ledger.visible_of_all ?_
    have hlen := congrArg List.length h.sent
    rw [hreq, List.append_nil, List.length_map, List.length_map] at hlen
    rw [h.published, hlen]
  refine ⟨l, rfl, hlog, h.sent, h.published, h.counted.restart hqueued hall (fun key hkey => ?_) _,
    hqueued⟩
  -- the queues that are found are those that had files
  rw [recoverConsumeQueue, Option.ne_none_iff_exists'] at hkey
  obtain ⟨cq', hcq'⟩ := hkey
  obtain ⟨cq, hcq, hsome⟩ := Option.bind_eq_some_iff.mp hcq'
  split at hsome
  · exact absurd hsome (by simp)
  · next hne => exact horder key cq hcq hne

lemma Inv.step {a : MasterStore.Action} (h : Inv cfg s l) (hallow : Allowed cfg s a)
    (hs : MasterStore.step cfg s a = some s') :
    ∃ l', run Ledger.step l (label cfg s a) = some l' ∧ Inv cfg s' l' := by
  cases a with
  | put env m => exact h.put hallow hs
  | dispatch env => exact h.dispatch hallow hs
  | restart checkCRCOnRecover order => exact h.restart hallow hs

lemma inv_newMaster {size tableSize : ℕ} (hsize : 8 ≤ size) (hpos : 0 < size)
    (htable : 0 < tableSize) : Inv cfg (newMaster hpos htable) Ledger.new where
  logged := {
    tiled := Restart.tiled_newLog hpos
    size := hsize
    fromZero := fromZero_empty hpos
    recorded := by simp [Ledger.new]
    ordered := List.Pairwise.nil }
  sent := rfl
  published := rfl
  counted := ⟨by simp [Ledger.new], by simp [Ledger.new], fun _ _ _ => rfl⟩
  queued := ⟨fun key => dense_newQueue cfg.queue.size_pos cfg.queue.dvd_size, fun key => rfl,
    fun key hkey => absurd rfl hkey⟩

end Steps

/-! ### Pulling -/

section Pull

variable {cfg : Config} {s : Master} {l : Ledger Placed} {v : MessageStore} {key : Text × Int32}
  {data : Option SubscriptionData} {p : Placed}

lemma Views.queue_eq (hv : Views cfg s v) (key : Text × Int32) :
    v.queue key = findConsumeQueue cfg.queue key s.consumeQueueTable := by
  rw [MessageStore.queue, hv.queueConfig, hv.table]

/-- The entries that readers find are those of the stream. -/
lemma Inv.entry_eq (h : Inv cfg s l) (hv : Views cfg s v) (i : ℕ) :
    entry v key i = (l.stream (Placed.Belongs key))[i]?.map unit := by
  rw [entry, hv.queue_eq, (h.queued.dense key).findUnit, h.queued.entries, List.getElem?_map]

lemma Inv.recorded_of_stream (h : Inv cfg s l) {i : ℕ}
    (hp : (l.stream (Placed.Belongs key))[i]? = some p) :
    Recorded s.store.commitLog.mapedFileQueue p ∧ p.result.logicsOffset = Int64.ofNat i := by
  obtain ⟨j, hj, ⟨hconsumed, rfl⟩, hcount⟩ := Ledger.index_of_stream hp
  exact ⟨h.logged.recorded p (List.mem_of_getElem? hj),
    hcount ▸ h.counted.numbered j p hj hconsumed⟩

/-- **A record is read** through its entry. -/
lemma Inv.record_of_stream (h : Inv cfg s l) (hv : Views cfg s v) {i : ℕ}
    (hp : (l.stream (Placed.Belongs key))[i]? = some p) :
    PointsAt v.commitLog (unit p) ∧ ∃ r, recordAt v.commitLog (unit p) = some r ∧
      IsRecord i p r := by
  obtain ⟨hrec, hnumber⟩ := h.recorded_of_stream hp
  obtain ⟨hoffset, hsize, -⟩ := unit_of_recorded hrec
  obtain ⟨bs, hrecord, hst⟩ := hrec.stands
  have hlen : (p.size : ℤ) = bs.length :=
    (Int32.toInt_ofNat_of_lt hrec.size_lt).symm.trans hrecord.size
  have hpos := p.size_pos
  rw [hv.log]
  obtain ⟨hpoints, hread⟩ := recordAt_of_stands h.logged.tiled.chained h.logged.tiled.mapped
    h.logged.fromZero hst (by omega) hoffset (hsize.trans hlen)
  exact ⟨hpoints, _, hread, rfl, hnumber, hrecord⟩

lemma Answers.eq_nil {k : ℕ} {rs : List SelectMapedBufferResult} (h : Answers data k [] rs) :
    rs = [] := by
  cases h
  rfl

/-- What the entries of a queue ask for are the records of its messages. -/
lemma Inv.answers (h : Inv cfg s l) (hv : Views cfg s v) (n k : ℕ) :
    Answers data k (((l.stream (Placed.Belongs key)).drop k).take n)
      ((List.range' k n).filterMap fun i => (entry v key i).bind (asked v data)) := by
  induction n generalizing k with
  | zero => exact .nil k
  | succ n ih =>
    have hrest := ih (k + 1)
    rw [List.range'_succ, List.filterMap_cons, h.entry_eq hv]
    cases hp : (l.stream (Placed.Belongs key))[k]? with
    | none =>
      have hlen := List.getElem?_eq_none_iff.mp hp
      rw [List.drop_eq_nil_of_le (by omega), List.take_nil] at hrest ⊢
      rw [hrest.eq_nil]
      exact .nil k
    | some p =>
      obtain ⟨hlt, rfl⟩ := List.getElem?_eq_some_iff.mp hp
      rw [List.drop_eq_getElem_cons hlt, List.take_succ_cons]
      simp only [Option.map_some, Option.bind_some, asked]
      split_ifs with hmatch
      · obtain ⟨-, r, hr, hrecord⟩ := h.record_of_stream hv hp
        simp only [hr]
        exact .answered hmatch hrecord hrest
      · exact .passed hmatch hrest

/-- **A queue shows its stream.** -/
lemma Inv.shows (h : Inv cfg s l) (hv : Views cfg s v) (key : Text × Int32) : Shows v l key := by
  have hdense := h.queued.dense key
  have hqueue := hv.queue_eq key
  have hmin : (v.queue key).getMinOffsetInQuque = 0 := by
    rw [hqueue, ConsumeQueue.getMinOffsetInQuque, hdense.min_eq, Nat.zero_div]
  have hmax : (v.queue key).getMaxOffsetInQuque = (l.stream (Placed.Belongs key)).length := by
    rw [hqueue, hdense.getMaxOffsetInQuque, h.queued.entries, List.length_map]
  have hpull : Pullable v key := {
    running := hv.running
    readable := hv.readable
    dvd_min := by
      rw [hqueue, hdense.min_eq]
      exact dvd_zero _
    points := by
      intro i u _ hu
      rw [h.entry_eq hv] at hu
      obtain ⟨p, hp, rfl⟩ := Option.map_eq_some_iff.mp hu
      exact (h.record_of_stream hv hp).1
    removing := by
      rw [hv.log, List.pairwise_iff_getElem]
      exact fun i j _ hj _ _ => h.logged.fromZero.available _ (List.getElem_mem hj) }
  have hgood : ∀ (data : Option SubscriptionData) i, 0 ≤ i → ¬MisreadAt v key data i := by
    rintro data i - ⟨u, -, -, -, first, hfirst, hne, -⟩
    rw [hv.log] at hfirst
    exact hne ((h.logged.fromZero.starts first hfirst).trans (Nat.mul_zero _))
  refine ⟨hmin, hmax, fun data maxMsgNums k hnums => ⟨fun rs o hfollow => ?_, ?_⟩⟩
  · obtain ⟨hle, rfl⟩ :=
      follow_asks hpull hnums (hmin.le.trans (Nat.zero_le _)) (hgood data) (Nat.zero_le k) hfollow
    exact ⟨hle, h.answers hv (o - k) k⟩
  · obtain ⟨o, hend, hfollow⟩ :=
      follow_to_max hpull hnums (hmin.le.trans (Nat.zero_le _)) (hgood data) (Nat.zero_le k)
    refine ⟨_, o, hfollow, hmax ▸ hend, ?_⟩
    have hanswers : Answers data k
        (((l.stream (Placed.Belongs key)).drop k).take ((v.queue key).getMaxOffsetInQuque - k)) _ :=
      h.answers hv _ k
    rwa [List.take_of_length_le (by rw [List.length_drop, hmax])] at hanswers

end Pull

/-- What a step needs, for steps on the given queues alone. -/
def allows (cfg : Config) (keys : List (Text × Int32)) (s : Master) : Action → Bool
  | .put env m => (prepare cfg.store env m).all fun p =>
      decide (0 ≤ p.1.queueId.toInt ∧ p.1.topicData.length ≤ 127 ∧
        p.1.propertiesData.length ≤ 32767 ∧ p.1.topic ≠ SCHEDULE_TOPIC ∧
        recordSize p.1 + END_FILE_MIN_BLANK_LENGTH ≤
          s.store.commitLog.mapedFileQueue.mapedFileSize ∧
        s.store.commitLog.mapedFileQueue.getMaxOffset +
          s.store.commitLog.mapedFileQueue.mapedFileSize < 2 ^ 63)
  | .dispatch env => s.requests.head?.all fun h =>
      decide (queueOf h.request ∈ keys ∧ s.store.writeable ∧ env.consumeQueueFile 0)
  | .restart checkCRCOnRecover order => decide (keys ⊆ order) &&
      s.store.commitLog.mapedFileQueue.mapedFiles.getLast?.all fun last =>
        decide (last.wrotePostion < s.store.commitLog.mapedFileQueue.mapedFileSize ∧
          (recoverCheck cfg.store (some cfg.store.scheduleMessageService) checkCRCOnRecover
            (last.mappedByteBuffer.drop last.wrotePostion)).1.msgSize = -1)

/-- The store has no queues but the given ones. -/
def Listed (keys : List (Text × Int32)) (s : Master) : Prop :=
  ∀ key, s.consumeQueueTable key ≠ none → key ∈ keys

section Listed

variable {cfg : Config} {keys : List (Text × Int32)} {s s' : Master}

lemma allowed_of_allows {a : MasterStore.Action} (h : Listed keys s) (ha : allows cfg keys s a) :
    Allowed cfg s a := by
  cases a with
  | put env m =>
    intro m' tagsCode hprep
    rw [allows, hprep, Option.all_some, decide_eq_true_eq] at ha
    obtain ⟨hid, htopic, hproperties, hschedule, hroom, hlong⟩ := ha
    exact ⟨hid, ⟨htopic, hproperties⟩, fun heq => absurd heq hschedule, hroom, hlong⟩
  | dispatch env =>
    intro hd hhead _
    rw [allows, Option.mem_def.mp hhead, Option.all_some, decide_eq_true_eq] at ha
    exact ⟨ha.2.1, 0, by decide, ha.2.2⟩
  | restart checkCRCOnRecover order =>
    rw [allows, Bool.and_eq_true, decide_eq_true_eq] at ha
    have hlast : ∀ last ∈ s.store.commitLog.mapedFileQueue.mapedFiles.getLast?, _ :=
      fun last hlast => of_decide_eq_true ((Option.all_eq_true _ _).mp ha.2 last hlast)
    exact ⟨fun last hmem _ => .inl (hlast last hmem).2, fun last hmem => (hlast last hmem).1,
      fun key cq hcq _ => ha.1 (h key (by rw [hcq]; exact Option.some_ne_none cq))⟩

lemma Listed.step {a : MasterStore.Action} (h : Listed keys s) (ha : allows cfg keys s a)
    (hs : MasterStore.step cfg s a = some s') : Listed keys s' := by
  intro key hkey
  cases a with
  | put env m =>
    rw [MasterStore.step, Option.some.injEq] at hs
    subst hs
    exact h key hkey
  | dispatch env =>
    rw [MasterStore.step] at hs
    cases hreq : s.requests with
    | nil => simp [hreq] at hs
    | cons hd rest =>
      simp only [hreq, Option.some.injEq] at hs
      subst hs
      simp only [allows, hreq, List.head?_cons, Option.all_some, decide_eq_true_eq] at ha
      unfold dispatchQueue at hkey
      split at hkey
      · by_cases heq : key = queueOf hd.request
        · exact heq ▸ ha.1
        · simp only [putMessagePostionInfo, Function.update_of_ne heq] at hkey
          exact h key hkey
      · exact h key hkey
  | restart checkCRCOnRecover order =>
    rw [MasterStore.step] at hs
    split at hs
    · simp only [MasterStore.restart, Option.bind_eq_bind, Option.bind_eq_some_iff,
        Option.pure_def, Option.some.injEq, Prod.exists] at hs
      obtain ⟨q, -, table, offset, -, rfl⟩ := hs
      refine h key fun hnone => hkey ?_
      simp [recoverConsumeQueue, hnone]
    · exact absurd hs (by simp)

end Listed

lemma pos_2000 : 0 < 2000 := by decide
lemma pos_2400 : 0 < 2400 := by decide

def testConfig : Config := ⟨Agreement.config, ⟨2000, pos_2000⟩⟩

end CloudMQ.Delivery
