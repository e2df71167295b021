import CloudMQ.Properties
import CloudMQ.StateTableRebuild

/-!
The outcome of transactions: producers put prepared messages and end their transactions, and the
dispatch service works through the requests at any time.

What is accepted for a prepared message is put into the log as a message of its own. The entry for
the consumers is made when that is dispatched, and so is the change of the row. The row takes the
first answer only, `updateTransactionState` looks whether it was updated before; the processor does
not, and every commit that it accepts is one more message for the consumers.
-/

namespace CloudMQ.TransactionOutcome

open CloudMQ.Buffer CloudMQ.Utf8 CloudMQ.Strings CloudMQ.Message CloudMQ.Record CloudMQ.Codec
open CloudMQ.Segment CloudMQ.Chain CloudMQ.CommitLog CloudMQ.Append CloudMQ.Agreement
open CloudMQ.LogBytes CloudMQ.Units CloudMQ.ConsumeQueues CloudMQ.TransactionState CloudMQ.Dispatch
open CloudMQ.Puts CloudMQ.Runs CloudMQ.MessageDecoder CloudMQ.EndTransaction CloudMQ.MasterStore
open CloudMQ.Alignment
open CloudMQ.StateTableRebuild (groupMessage)

/-! ### Steps -/

inductive Action
  | put (env : Env) (m : MessageExtBrokerInner)
  | endTransaction (env : Env) (requestHeader : EndTransactionRequestHeader)
  | dispatch (env : DispatchEnv)

/-- A request that passes the checks is a put of its copy. -/
def step (cfg : Config) (s : Master) : Action → Option Master
  | .put env m => MasterStore.step cfg s (.put env m)
  | .endTransaction env requestHeader =>
    match endTransaction env.entryOrder s.store.commitLog.mapedFileQueue requestHeader with
    | .ended m => MasterStore.step cfg s (.put env m)
    | _ => some s
  | .dispatch env => MasterStore.step cfg s (.dispatch env)

/-! ### The outcome -/

def IsCommit (h : Handed) : Prop :=
  getTransactionValue h.request.sysFlag = TransactionCommitType

/-- A commit or a rollback that was accepted. -/
def IsDecision (h : Handed) : Prop :=
  IsCommit h ∨ getTransactionValue h.request.sysFlag = TransactionRollbackType

instance (h : Handed) : Decidable (IsCommit h) := inferInstanceAs (Decidable (_ = _))
instance (h : Handed) : Decidable (IsDecision h) := inferInstanceAs (Decidable (_ ∨ _))

/-- Everything that was accepted, in its order. -/
def accepted (s : Master) : List Handed := s.dispatched ++ s.requests

/-- The decisions for the message at the given offset. -/
def decisions (hs : List Handed) (o : Int64) : List Handed :=
  hs.filter fun h => IsDecision h ∧ h.request.preparedTransactionOffset = o

/-- The entries of a queue without the blank ones in front. -/
def placed (s : Master) (key : Text × Int32) : List CQUnit :=
  ((s.consumeQueueTable key).elim [] ConsumeQueue.entries).filter (· ≠ preBlank)

/-- The entry is one of the record of the prepared message, or of a commit of it. -/
def IsOf (hs : List Handed) (p : Handed) (u : CQUnit) : Prop :=
  u.offset = p.request.commitLogOffset ∨
    ∃ h ∈ decisions hs p.request.commitLogOffset, IsCommit h ∧ h.request.commitLogOffset = u.offset

instance (hs : List Handed) (p : Handed) (u : CQUnit) : Decidable (IsOf hs p u) :=
  inferInstanceAs (Decidable (_ ∨ _))

/-- What a prepared message contributes to a queue. -/
def contributed (s : Master) (p : Handed) (key : Text × Int32) : List CQUnit :=
  (placed s key).filter fun u => IsOf (accepted s) p u

/-- Consumers can see the message. -/
def Visible (s : Master) (p : Handed) : Prop := ∃ key, contributed s p key ≠ []

/-- What is promised of a prepared message. -/
structure Outcome (s : Master) (p : Handed) : Prop where
  once : ∀ key, (contributed s p key).length ≤ 1
  oneQueue : ∀ key key', contributed s p key ≠ [] → contributed s p key' ≠ [] → key = key'
  rolledBack : ∀ h, (decisions (accepted s) p.request.commitLogOffset).head? = some h →
    ¬ IsCommit h → ¬ Visible s p
  row : p ∈ s.dispatched → ∃ len f row, p.header = some (len, f) ∧
    findTransactionBuffer f.queueOffset s.tranStateTable = some row ∧
    row.clOffset = p.request.commitLogOffset ∧
    (row.state = TransactionCommitType ↔ Visible s p)

/-- The record fits a file, and the log stays within a `long`. -/
def HasPlace (s : Master) (m : MessageExtBrokerInner) : Prop :=
  recordSize m + END_FILE_MIN_BLANK_LENGTH ≤ s.store.commitLog.mapedFileQueue.mapedFileSize ∧
    s.store.commitLog.mapedFileQueue.getMaxOffset +
      s.store.commitLog.mapedFileQueue.mapedFileSize < 2 ^ 63

/-- A prepared message of a group, which a reader of the record finds, too. -/
structure Prepared (s : Master) (m : MessageExtBrokerInner) : Prop extends Fits m where
  group : (m.getProperty PROPERTY_PRODUCER_GROUP).isSome
  stored : (storedProps m).get PROPERTY_PRODUCER_GROUP = m.getProperty PROPERTY_PRODUCER_GROUP
  counter : s.store.commitLog.counters.tranStateTableOffset.toInt + 1 < 2 ^ 63

/-- What a step needs. Of the requests that pass the checks, a commit must be the first decision
for its message. -/
def Allowed (cfg : Config) (s : Master) : Action → Prop
  | .put env m => ∀ m' tagsCode, prepare cfg.store env m = some (m', tagsCode) →
      HasPlace s m' ∧ (getTransactionValue m'.sysFlag = TransactionNotType ∨
        getTransactionValue m'.sysFlag = TransactionPreparedType ∧ Prepared s m')
  | .endTransaction env requestHeader => ∀ msgExt,
      lookMessageByOffset s.store.commitLog.mapedFileQueue requestHeader.commitLogOffset =
        .ok (some msgExt) → checkRequest requestHeader msgExt = .ok none →
      HasPlace s (msgInner env.entryOrder requestHeader msgExt) ∧
        (requestHeader.commitOrRollback = TransactionCommitType →
          decisions (accepted s) requestHeader.commitLogOffset = [])
  | .dispatch env => Alignment.Allowed cfg s (.dispatch env) ∧
      ∀ h ∈ s.requests.head?, isConsumed h.request.sysFlag →
        s.store.writeable ∧ ∃ i < ConsumeQueue.MaxRetries, env.consumeQueueFile i

variable {cfg : Config} {s s' : Master} {env : Env} {m m' : MessageExtBrokerInner} {h p : Handed}
  {requestHeader : EndTransactionRequestHeader}

/-- The store is the one `processRequest` leaves. -/
lemma store_endTransaction (hs : step cfg s (.endTransaction env requestHeader) = some s') :
    s'.store = (processRequest cfg.store env requestHeader s.store).1 := by
  rw [step] at hs
  unfold processRequest
  cases hend : endTransaction env.entryOrder s.store.commitLog.mapedFileQueue requestHeader with
  | ended m =>
    rw [hend] at hs
    obtain rfl := Option.some.inj hs
    rfl
  | silent => rw [hend] at hs; obtain rfl := Option.some.inj hs; rfl
  | thrown => rw [hend] at hs; obtain rfl := Option.some.inj hs; rfl
  | refused remark => rw [hend] at hs; obtain rfl := Option.some.inj hs; rfl

/-! ### What is accepted -/

/-- The request and the header of a message that was written. -/
def handedOf (log' : Log) (m : MessageExtBrokerInner) (tagsCode : Int64)
    (result : AppendMessageResult) : Handed :=
  ⟨dispatchRequest m tagsCode result, headerAt log'.mapedFileQueue result.wroteOffset⟩

/-- A put writes the message and hands its request over, or nothing is handed over. -/
lemma put_cases (hlog : LogOK s.store.commitLog)
    (hplace : ∀ m' tagsCode, prepare cfg.store env m = some (m', tagsCode) → HasPlace s m')
    (hs : MasterStore.step cfg s (.put env m) = some s') :
    ∃ store, Kept s.store.commitLog store.commitLog ∧ store.writeable = s.store.writeable ∧
      (s' = { s with store := store } ∨
        ∃ m' tagsCode result, prepare cfg.store env m = some (m', tagsCode) ∧
          WroteMessage (stamp env m') s.store.commitLog store.commitLog result ∧
          s' = { s with
            store := store
            requests := s.requests ++
              [handedOf store.commitLog (stamp env m') tagsCode result] }) := by
  rcases hput : s.store.putMessage cfg.store env m with ⟨store, r⟩
  rw [MasterStore.step, hput, Option.some.injEq] at hs
  subst hs
  obtain ⟨hkept, hout, hwriteable⟩ := storePut_outcome hlog hput
  refine ⟨store, hkept, hwriteable, ?_⟩
  cases hout with
  | failed m' idle dispatched =>
    have hnone : MasterStore.handed store.commitLog.mapedFileQueue r = [] := by
      cases r with
      | error e => rfl
      | ok put => simp only [MasterStore.handed, dispatched put rfl]
    exact .inl (by simp only [hnone, List.append_nil])
  | blank m' tagsCode result put prepared returned appended dispatched room idle =>
    exact absurd (hplace m' tagsCode prepared).1 (Nat.not_le.mpr room)
  | wrote m' tagsCode result put prepared returned appended dispatched room wrote =>
    refine .inr ⟨m', tagsCode, result, prepared, wrote, ?_⟩
    simp only [returned, MasterStore.handed, dispatched, appended]
    rfl

/-- The type of the copy is the one of the request. -/
lemma getTransactionValue_reset (flag : Int32) {type : Int32}
    (htype : type = TransactionCommitType ∨ type = TransactionRollbackType) :
    getTransactionValue (resetTransactionValue flag type) = type := by
  have hor : (flag &&& ~~~TransactionRollbackType ||| type) &&& TransactionRollbackType =
      (flag &&& ~~~TransactionRollbackType) &&& TransactionRollbackType |||
        type &&& TransactionRollbackType := Int32.toBitVec_inj.mp BitVec.and_or_distrib_right
  rw [getTransactionValue, resetTransactionValue, hor, Int32.and_assoc, Int32.not_and_self,
    Int32.and_zero, Int32.zero_or]
  rcases htype with rfl | rfl
  · decide
  · decide

/-- A request that is not refused is a decision, and its message was found. -/
lemma ended_cases {order : EntryOrder} {q : MapedFileQueue Bytes}
    (hend : endTransaction order q requestHeader = .ended m) :
    (requestHeader.commitOrRollback = TransactionCommitType ∨
        requestHeader.commitOrRollback = TransactionRollbackType) ∧
      ∃ msgExt, lookMessageByOffset q requestHeader.commitLogOffset = .ok (some msgExt) ∧
        checkRequest requestHeader msgExt = .ok none ∧ m = msgInner order requestHeader msgExt := by
  unfold endTransaction at hend
  split at hend
  swap
  · cases hend
  next hdecision =>
  refine ⟨hdecision, ?_⟩
  cases hlook : lookMessageByOffset q requestHeader.commitLogOffset with
  | error e => rw [hlook] at hend; cases hend
  | ok found =>
    cases found with
    | none => rw [hlook] at hend; cases hend
    | some msgExt =>
      rw [hlook] at hend
      dsimp only at hend
      split at hend
      · cases hend
      · cases hend
      · next hcheck =>
        exact ⟨msgExt, rfl, hcheck, (Ended.ended.inj hend).symm⟩

/-- The copy, as it is put: at once, with the group of the message. -/
lemma prepare_msgInner {order : EntryOrder} {msgExt : MessageExt} :
    prepare cfg.store env (msgInner order requestHeader msgExt) =
      some (checksum env (msgInner order requestHeader msgExt),
        (msgInner order requestHeader msgExt).tagsCode) :=
  prepare_at_once (isDelayed_of_none (Properties.get_erase_self _ _))

lemma group_msgInner (order : EntryOrder) (requestHeader : EndTransactionRequestHeader)
    (msgExt : MessageExt) :
    (msgInner order requestHeader msgExt).getProperty PROPERTY_PRODUCER_GROUP =
      msgExt.getProperty PROPERTY_PRODUCER_GROUP :=
  (Properties.get_erase_of_ne (by decide)).trans (Props.get_put_of_ne _ (by decide))

lemma queueOffset_of_checked {msgExt : MessageExt}
    (hcheck : checkRequest requestHeader msgExt = .ok none) :
    requestHeader.tranStateTableOffset = msgExt.queueOffset := by
  unfold checkRequest at hcheck
  split at hcheck
  · cases hcheck
  · split_ifs at hcheck with hgroup hoffset hlog
    · cases hcheck
    · cases hcheck
    · cases hcheck
    · exact (not_not.mp hoffset).symm

/-! ### The invariant -/

/-- The record of a prepared message stands in the log. -/
def Recorded (q : MapedFileQueue Bytes) (p : Handed) : Prop :=
  ∃ m tagsCode log log' result, WroteMessage m log log' result ∧ Agrees log'.mapedFileQueue q ∧
    (Int64.ofNat result.wroteOffset).toInt = result.wroteOffset ∧ Fits m ∧
    (storedProps m).get PROPERTY_PRODUCER_GROUP = m.getProperty PROPERTY_PRODUCER_GROUP ∧
    p = handedOf log' m tagsCode result

/-- The decision carries the group and the number of the message. -/
def Answers (p h : Handed) : Prop :=
  h.request.producerGroup = p.request.producerGroup ∧
    ∃ len f, p.header = some (len, f) ∧ h.request.tranStateTableOffset = f.queueOffset

/-- What is known of the requests that were accepted, in a log. -/
structure Accepted (hs : List Handed) (q : MapedFileQueue Bytes) : Prop where
  ordered : hs.Pairwise fun h h' =>
    h.request.commitLogOffset.toInt < h'.request.commitLogOffset.toInt
  inLog : ∀ h ∈ hs, 0 ≤ h.request.commitLogOffset.toInt ∧
    h.request.commitLogOffset.toInt < q.getMaxOffset ∧ 0 < h.request.msgSize.toInt
  recorded : ∀ p ∈ hs, IsPrepared p → Recorded q p
  behind : ∀ h ∈ hs, IsDecision h →
    h.request.preparedTransactionOffset.toInt < h.request.commitLogOffset.toInt
  answers : ∀ h ∈ hs, IsDecision h → ∀ p ∈ hs, IsPrepared p →
    h.request.preparedTransactionOffset = p.request.commitLogOffset → Answers p h
  /-- a commit is the first decision -/
  settled : ∀ o, ∀ h ∈ (decisions hs o).tail, ¬ IsCommit h

/-- The state of a row after these decisions. -/
def stateOf : List Handed → Int32
  | [] => TransactionPreparedType
  | h :: _ => getTransactionValue h.request.sysFlag

/-- The entries of the requests that were dispatched to a queue. -/
def entriesFor (hs : List Handed) (key : Text × Int32) : List CQUnit :=
  ((hs.filter fun h => isConsumed h.request.sysFlag ∧ queueOf h.request = key).map
    fun h => cqUnit h.request).filter (· ≠ preBlank)

/-- What is known of the tables. -/
structure Dispatched (s : Master) : Prop where
  tracked : ∀ key cq, s.consumeQueueTable key = some cq → Tracked cq ∧
    cq.maxPhysicOffset.toInt < s.store.commitLog.mapedFileQueue.getMaxOffset ∧
    ∀ h ∈ s.requests, cq.maxPhysicOffset.toInt < h.request.commitLogOffset.toInt
  entries : ∀ key, placed s key = entriesFor s.dispatched key
  states : ∀ row ∈ units TSStoreUnitSize s.tranStateTable,
    row.state = stateOf (decisions s.dispatched row.clOffset)

structure Inv (s : Master) : Prop where
  aligned : Alignment.Inv s
  known : Accepted (accepted s) s.store.commitLog.mapedFileQueue
  tables : Dispatched s

section Requests

variable {hs : List Handed} {q q' : MapedFileQueue Bytes} {o : Int64}

lemma not_isDecision (hprep : IsPrepared h) : ¬ IsDecision h := by
  unfold IsDecision IsCommit
  rw [hprep]
  decide

lemma decisions_append (hs hs' : List Handed) :
    decisions (hs ++ hs') o = decisions hs o ++ decisions hs' o :=
  List.filter_append _ _

lemma decisions_of_decides (hdec : IsDecision h) :
    decisions [h] h.request.preparedTransactionOffset = [h] :=
  List.filter_eq_self.mpr fun h' hh' => by
    rw [List.mem_singleton.mp hh', decide_eq_true_eq]
    exact ⟨hdec, rfl⟩

lemma decisions_of_not (hnot : ¬ (IsDecision h ∧ h.request.preparedTransactionOffset = o)) :
    decisions [h] o = [] :=
  List.filter_eq_nil_iff.mpr fun h' hh' => by
    rw [List.mem_singleton.mp hh', decide_eq_true_eq]
    exact hnot

lemma mem_decisions : h ∈ decisions hs o ↔
    h ∈ hs ∧ IsDecision h ∧ h.request.preparedTransactionOffset = o := by
  rw [decisions, List.mem_filter, decide_eq_true_eq]

lemma Recorded.mono (hp : Recorded q p) (hag : Agrees q q') : Recorded q' p := by
  obtain ⟨m, tagsCode, log, log', result, hw, hag', hrest⟩ := hp
  exact ⟨m, tagsCode, log, log', result, hw, fun o b hb => hag o b (hag' o b hb), hrest⟩

/-- The place and the number of a recorded message. -/
lemma Recorded.header (hp : Recorded q p) :
    ∃ len f, p.header = some (len, f) ∧ f.physicOffset = p.request.commitLogOffset := by
  obtain ⟨m, tagsCode, log, log', result, hw, -, -, -, -, rfl⟩ := hp
  exact ⟨_, _, headerAt_wrote hw, rfl⟩

/-- **A message that is found** is the one that was put. -/
lemma Recorded.found (hp : Recorded q p) (hc : Chained q) (hm : Mapped q) {msgExt : MessageExt}
    (hlook : lookMessageByOffset q p.request.commitLogOffset = .ok (some msgExt)) :
    msgExt.getProperty PROPERTY_PRODUCER_GROUP = p.request.producerGroup ∧
      ∃ len f, p.header = some (len, f) ∧ msgExt.queueOffset = f.queueOffset := by
  obtain ⟨m, tagsCode, log, log', result, hw, hag, hoff, hfits, hstored, rfl⟩ := hp
  have hfound := foundAs_of_decodedFrom hfits (lookMessageByOffset_wrote hc hm hw hag hoff hlook)
  have hnumber : QueueOffsetAt q (Int64.ofNat result.wroteOffset).toInt.toNat
      result.logicsOffset := by
    rw [hoff, Int.toNat_natCast]
    exact (queueOffsetAt_wrote hw).mono hag
  refine ⟨?_, _, _, headerAt_wrote hw, lookMessageByOffset_queueOffset hc hm hnumber hlook⟩
  rw [MessageExt.getProperty, hfound.properties, hstored]
  rfl

lemma Accepted.mono (ha : Accepted hs q) (hag : Agrees q q')
    (hmax : q.getMaxOffset ≤ q'.getMaxOffset) : Accepted hs q' where
  ordered := ha.ordered
  inLog h hh := by
    obtain ⟨hpos, hlt, hsize⟩ := ha.inLog h hh
    exact ⟨hpos, by omega, hsize⟩
  recorded p hp hprep := (ha.recorded p hp hprep).mono hag
  behind := ha.behind
  answers := ha.answers
  settled := ha.settled

/-- **One request more.** It lies behind what was in the log, and so does its decision. -/
lemma Accepted.snoc (ha : Accepted hs q) (hag : Agrees q q')
    (hlow : q.getMaxOffset ≤ h.request.commitLogOffset.toInt)
    (hhigh : h.request.commitLogOffset.toInt < q'.getMaxOffset)
    (hsize : 0 < h.request.msgSize.toInt) (hrecorded : IsPrepared h → Recorded q' h)
    (hdecided : IsDecision h → h.request.preparedTransactionOffset.toInt < q.getMaxOffset ∧
      ∀ p ∈ hs, IsPrepared p →
        h.request.preparedTransactionOffset = p.request.commitLogOffset → Answers p h)
    (hfirst : IsCommit h → decisions hs h.request.preparedTransactionOffset = []) :
    Accepted (hs ++ [h]) q' := by
  have hold := ha.mono hag (by omega)
  refine ⟨List.pairwise_append.mpr ⟨ha.ordered, List.pairwise_singleton _ _, ?_⟩, ?_, ?_, ?_, ?_,
    fun o h' hh' => ?_⟩
  · intro h₁ hh₁ h₂ hh₂
    rw [List.mem_singleton.mp hh₂]
    exact (ha.inLog h₁ hh₁).2.1.trans_le hlow
  · exact List.forall_mem_append.mpr ⟨hold.inLog, List.forall_mem_singleton.mpr
      ⟨by omega, hhigh, hsize⟩⟩
  · exact List.forall_mem_append.mpr ⟨hold.recorded, List.forall_mem_singleton.mpr hrecorded⟩
  · exact List.forall_mem_append.mpr ⟨hold.behind, List.forall_mem_singleton.mpr
      fun hdec => (hdecided hdec).1.trans_le hlow⟩
  · refine List.forall_mem_append.mpr ⟨fun h' hh' hdec => ?_, List.forall_mem_singleton.mpr
      fun hdec => ?_⟩
    · refine List.forall_mem_append.mpr ⟨ha.answers h' hh' hdec, List.forall_mem_singleton.mpr
        fun _ heq => ?_⟩
      -- the new record lies behind everything that was decided
      have hbehind := ha.behind h' hh' hdec
      have hlt := (ha.inLog h' hh').2.1
      rw [heq] at hbehind
      omega
    · exact List.forall_mem_append.mpr ⟨(hdecided hdec).2, List.forall_mem_singleton.mpr
        fun hprep => absurd hdec (not_isDecision hprep)⟩
  · rw [decisions_append] at hh'
    by_cases hdec : IsDecision h ∧ h.request.preparedTransactionOffset = o
    · obtain ⟨hdec, rfl⟩ := hdec
      rw [decisions_of_decides hdec] at hh'
      cases hds : decisions hs h.request.preparedTransactionOffset with
      | nil =>
        rw [hds] at hh'
        exact absurd hh' List.not_mem_nil
      | cons d ds =>
        rw [hds, List.cons_append, List.tail_cons] at hh'
        rcases List.mem_append.mp hh' with hh' | hh'
        · exact ha.settled _ h' (by rw [hds]; exact hh')
        · rw [List.mem_singleton.mp hh']
          intro hcommit
          rw [hfirst hcommit] at hds
          cases hds
    · rw [decisions_of_not hdec, List.append_nil] at hh'
      exact ha.settled o h' hh'

end Requests

/-! ### Putting -/

section Puts

variable {store : Store} {tagsCode : Int64} {result : AppendMessageResult}

/-- The tables stay as they are. -/
lemma Inv.put (hinv : Inv s) {hs : List Handed} (hkept : Kept s.store.commitLog store.commitLog)
    (haligned : Alignment.Inv { s with store := store, requests := s.requests ++ hs })
    (haccepted : Accepted (accepted s ++ hs) store.commitLog.mapedFileQueue)
    (hlow : ∀ h ∈ hs, s.store.commitLog.mapedFileQueue.getMaxOffset ≤
      h.request.commitLogOffset.toInt) :
    Inv { s with store := store, requests := s.requests ++ hs } where
  aligned := haligned
  known := by rwa [accepted, List.append_assoc] at haccepted
  tables := by
    refine ⟨fun key cq hcq => ?_, hinv.tables.entries, hinv.tables.states⟩
    obtain ⟨htracked, hmax, hwaiting⟩ := hinv.tables.tracked key cq hcq
    have hle := hkept.max_le
    refine ⟨htracked, ?_, List.forall_mem_append.mpr
      ⟨hwaiting, fun h hh => hmax.trans_le (hlow h hh)⟩⟩
    change cq.maxPhysicOffset.toInt < (store.commitLog.mapedFileQueue.getMaxOffset : ℤ)
    omega

/-- **A message was written.** -/
lemma Inv.wrote (hinv : Inv s) (hkept : Kept s.store.commitLog store.commitLog)
    (hplace : HasPlace s m')
    (hw : WroteMessage (stamp env m') s.store.commitLog store.commitLog result)
    (haligned : Alignment.Inv { s with
      store := store
      requests := s.requests ++ [handedOf store.commitLog (stamp env m') tagsCode result] })
    (hprepared : getTransactionValue m'.sysFlag = TransactionPreparedType → Prepared s m')
    (hdecided : getTransactionValue m'.sysFlag = TransactionCommitType ∨
        getTransactionValue m'.sysFlag = TransactionRollbackType →
      m'.preparedTransactionOffset.toInt < s.store.commitLog.mapedFileQueue.getMaxOffset ∧
        ∀ p ∈ accepted s, IsPrepared p →
          m'.preparedTransactionOffset = p.request.commitLogOffset →
            Answers p (handedOf store.commitLog (stamp env m') tagsCode result))
    (hfirst : getTransactionValue m'.sysFlag = TransactionCommitType →
      decisions (accepted s) m'.preparedTransactionOffset = []) :
    Inv { s with
      store := store
      requests := s.requests ++ [handedOf store.commitLog (stamp env m') tagsCode result] } := by
  have hle := hw.offset_le
  have hlow := hw.max_le
  have hend := hw.end_eq
  have hbytes := hw.wroteBytes
  have hlt := hw.size_lt
  have hpos : 0 < recordSize (stamp env m') := by
    unfold recordSize
    omega
  have hoff : (Int64.ofNat result.wroteOffset).toInt = result.wroteOffset :=
    toInt_ofNat (hle.trans_lt hplace.2)
  have hoff' : (handedOf store.commitLog (stamp env m') tagsCode
    result).request.commitLogOffset.toInt = result.wroteOffset := hoff
  have hsize : (handedOf store.commitLog (stamp env m') tagsCode result).request.msgSize.toInt =
      result.wroteBytes := Int32.toInt_ofNat_of_lt (by omega)
  refine hinv.put hkept haligned (hinv.known.snoc hkept.agrees (by omega) (by omega) (by omega)
    (fun hprep => ?_) hdecided hfirst) (List.forall_mem_singleton.mpr (by omega))
  obtain ⟨⟨htopic, hproperties⟩, -, hstored, -⟩ := hprepared hprep
  exact ⟨_, _, _, _, _, hw, fun o b hb => hb, hoff, ⟨htopic, hproperties⟩, hstored, rfl⟩

lemma inv_put (hinv : Inv s) (hallow : Allowed cfg s (.put env m))
    (hs : MasterStore.step cfg s (.put env m) = some s') : Inv s' := by
  have hstep : Alignment.Allowed cfg s (.put env m) := by
    intro m' tagsCode hprep htype
    obtain ⟨hplace, hnot | ⟨-, hprepared⟩⟩ := hallow m' tagsCode hprep
    · rw [hnot] at htype
      exact absurd htype (by decide)
    · exact ⟨hprepared.group, hplace.1, hplace.2, hprepared.counter⟩
  have haligned := Alignment.inv_put hinv.aligned hstep hs
  obtain ⟨store, hkept, -, rfl | ⟨m', tagsCode, result, hprep, hw, rfl⟩⟩ :=
    put_cases hinv.aligned.ok (fun m' tagsCode hprep => (hallow m' tagsCode hprep).1) hs
  · have hnone := @Inv.put s store hinv [] hkept
    simp only [List.append_nil] at hnone
    exact hnone haligned (hinv.known.mono hkept.agrees hkept.max_le)
      fun h hh => absurd hh List.not_mem_nil
  · obtain ⟨hplace, htype⟩ := hallow m' tagsCode hprep
    have hnot : ¬ (getTransactionValue m'.sysFlag = TransactionCommitType ∨
        getTransactionValue m'.sysFlag = TransactionRollbackType) := by
      rcases htype with htype | ⟨htype, -⟩
      · rw [htype]
        decide
      · rw [htype]
        decide
    refine hinv.wrote hkept hplace hw haligned (fun hp => ?_) (fun hd => absurd hd hnot)
      fun hc => absurd (.inl hc) hnot
    rcases htype with htype | ⟨-, hprepared⟩
    · rw [hp] at htype
      exact absurd htype (by decide)
    · exact hprepared

/-- **A decision.** -/
lemma inv_endTransaction (hinv : Inv s) (hallow : Allowed cfg s (.endTransaction env requestHeader))
    (hs : step cfg s (.endTransaction env requestHeader) = some s') : Inv s' := by
  rw [step] at hs
  split at hs
  swap
  · exact Option.some.inj hs ▸ hinv
  next m hend =>
  obtain ⟨hdecision, msgExt, hlook, hcheck, rfl⟩ := ended_cases hend
  obtain ⟨hplace, hfirst⟩ := hallow msgExt hlook hcheck
  have htype : getTransactionValue (msgInner env.entryOrder requestHeader msgExt).sysFlag =
      requestHeader.commitOrRollback := getTransactionValue_reset _ hdecision
  have hstep : Alignment.Allowed cfg s
      (.put env (msgInner env.entryOrder requestHeader msgExt)) := by
    intro m' tagsCode hprep hprepared
    obtain ⟨rfl, -⟩ := Prod.mk.inj (Option.some.inj (prepare_msgInner.symm.trans hprep))
    change getTransactionValue (msgInner env.entryOrder requestHeader msgExt).sysFlag = _
      at hprepared
    rw [htype] at hprepared
    rw [hprepared] at hdecision
    exact absurd hdecision (by decide)
  have haligned := Alignment.inv_put hinv.aligned hstep hs
  obtain ⟨store, hkept, -, rfl | ⟨m', tagsCode, result, hprep, hw, rfl⟩⟩ :=
    put_cases hinv.aligned.ok (fun m' tagsCode hprep => by
      obtain ⟨rfl, -⟩ := Prod.mk.inj (Option.some.inj (prepare_msgInner.symm.trans hprep))
      exact hplace) hs
  · have hnone := @Inv.put s store hinv [] hkept
    simp only [List.append_nil] at hnone
    exact hnone haligned (hinv.known.mono hkept.agrees hkept.max_le)
      fun h hh => absurd hh List.not_mem_nil
  · obtain ⟨rfl, -⟩ := Prod.mk.inj (Option.some.inj (prepare_msgInner.symm.trans hprep))
    have hok := hinv.aligned.ok
    refine hinv.wrote hkept hplace hw haligned (fun hp => ?_)
      (fun _ => ⟨?_, fun p hp hprepared heq => ?_⟩)
      fun hcommit => hfirst (htype.symm.trans hcommit)
    · exact absurd hdecision (by rw [← htype, show getTransactionValue (msgInner env.entryOrder
        requestHeader msgExt).sysFlag = _ from hp]; decide)
    · exact (lookMessageByOffset_lt hok.chained hlook).2
    · change requestHeader.commitLogOffset = p.request.commitLogOffset at heq
      rw [heq] at hlook
      obtain ⟨hgroup, len, f, hheader, hnumber⟩ :=
        (hinv.known.recorded p hp hprepared).found hok.chained hok.mapped hlook
      exact ⟨(group_msgInner env.entryOrder requestHeader msgExt).trans hgroup, len, f, hheader,
        (queueOffset_of_checked hcheck).trans hnumber⟩

end Puts

/-! ### Dispatching -/

section Queue

variable {hs hs' rest : List Handed} {key : Text × Int32} {denv : DispatchEnv}
  {cq cq' : ConsumeQueue} {u : CQUnit}

lemma maxPhysicOffset_of_entered (hcq : Entered cq u cq') : cq'.maxPhysicOffset = u.offset := by
  obtain ⟨n, hn⟩ := hcq.entries
  rw [hcq.tracked.max_eq, hn, List.getLast?_concat]
  rfl

/-- Blank entries are not counted. -/
lemma filter_of_entered (hcq : Entered cq u cq') :
    cq'.entries.filter (· ≠ preBlank) =
      cq.entries.filter (· ≠ preBlank) ++ [u].filter (· ≠ preBlank) := by
  obtain ⟨n, hn⟩ := hcq.entries
  have hblank : (List.replicate n preBlank).filter (· ≠ preBlank) = [] :=
    List.filter_eq_nil_iff.mpr fun v hv => by simp [List.eq_of_mem_replicate hv]
  rw [hn, List.filter_append, List.filter_append, hblank, List.append_nil]

lemma entriesFor_append :
    entriesFor (hs ++ hs') key = entriesFor hs key ++ entriesFor hs' key := by
  rw [entriesFor, List.filter_append, List.map_append, List.filter_append]
  rfl

lemma entriesFor_of_not (hnot : ¬ (isConsumed h.request.sysFlag ∧ queueOf h.request = key)) :
    entriesFor [h] key = [] := by
  have hnil : [h].filter (fun h => decide (isConsumed h.request.sysFlag ∧
      queueOf h.request = key)) = [] := List.filter_eq_nil_iff.mpr fun h' hh' => by
    rw [List.mem_singleton.mp hh', decide_eq_true_eq]
    exact hnot
  rw [entriesFor, hnil]
  rfl

lemma entriesFor_queueOf (hconsumed : isConsumed h.request.sysFlag) :
    entriesFor [h] (queueOf h.request) = [cqUnit h.request].filter (· ≠ preBlank) := by
  have hall : [h].filter (fun h' => decide (isConsumed h'.request.sysFlag ∧
      queueOf h'.request = queueOf h.request)) = [h] := List.filter_eq_self.mpr fun h' hh' => by
    rw [List.mem_singleton.mp hh', decide_eq_true_eq]
    exact ⟨hconsumed, rfl⟩
  rw [entriesFor, hall]
  rfl

/-- The queue that is looked for is tracked; a new one has no entries. -/
lemma Dispatched.found (ht : Dispatched s) (hpos : ∀ h ∈ s.requests,
    0 ≤ h.request.commitLogOffset.toInt) (qcfg : QueueConfig) (key : Text × Int32) :
    Tracked (findConsumeQueue qcfg key s.consumeQueueTable) ∧
      (∀ h ∈ s.requests, (findConsumeQueue qcfg key s.consumeQueueTable).maxPhysicOffset.toInt <
        h.request.commitLogOffset.toInt) ∧
      (findConsumeQueue qcfg key s.consumeQueueTable).entries.filter (· ≠ preBlank) =
        placed s key := by
  unfold findConsumeQueue placed
  cases hcq : s.consumeQueueTable key with
  | none =>
    refine ⟨tracked_newQueue qcfg.size_pos qcfg.dvd_size, fun h hh => ?_, rfl⟩
    have h0 := hpos h hh
    change (-1 : ℤ) < _
    omega
  | some cq =>
    obtain ⟨htracked, -, hwaiting⟩ := ht.tracked key cq hcq
    exact ⟨htracked, hwaiting, rfl⟩

/-- **The entry is put.** -/
lemma entered_of_dispatched (ht : Dispatched s) (hreq : s.requests = h :: rest)
    (hvalid : ∀ h ∈ s.requests,
      0 ≤ h.request.commitLogOffset.toInt ∧ 0 < h.request.msgSize.toInt)
    (hconsumed : isConsumed h.request.sysFlag) (hwriteable : s.store.writeable)
    (hfile : ∃ i < ConsumeQueue.MaxRetries, denv.consumeQueueFile i) (qcfg : QueueConfig) :
    ∃ cq', (dispatchQueue qcfg denv s.store.writeable h.request s.consumeQueueTable).1 =
        Function.update s.consumeQueueTable (queueOf h.request) (some cq') ∧
      Entered (findConsumeQueue qcfg (queueOf h.request) s.consumeQueueTable)
        (cqUnit h.request) cq' := by
  have hmem : h ∈ s.requests := by
    rw [hreq]
    exact List.mem_cons_self
  obtain ⟨htracked, hmax, -⟩ := ht.found (fun h hh => (hvalid h hh).1) qcfg (queueOf h.request)
  obtain ⟨hpos, hsize⟩ := hvalid h hmem
  have hu : (cqUnit h.request).isValid := by simp [CQUnit.isValid, cqUnit, hpos, hsize]
  have hlt := hmax h hmem
  rw [dispatchQueue, if_pos hconsumed]
  rcases @putWrapper_cases _ _ h.request.consumeQueueOffset.toInt.toNat htracked hu
    s.store.writeable denv.consumeQueueFile with ⟨hle, -⟩ | ⟨-, cq', ⟨hput, hentered⟩ | ⟨hno, -⟩⟩
  · exact absurd hlt (not_lt.mpr hle)
  · exact ⟨cq', by simp only [putMessagePostionInfo, hput], hentered⟩
  · exact absurd ⟨hwriteable, hfile⟩ hno

/-- The queues after a request. -/
lemma Dispatched.queues (ht : Dispatched s) (hreq : s.requests = h :: rest)
    (hknown : Accepted (accepted s) s.store.commitLog.mapedFileQueue)
    (hallow : isConsumed h.request.sysFlag →
      s.store.writeable ∧ ∃ i < ConsumeQueue.MaxRetries, denv.consumeQueueFile i)
    (qcfg : QueueConfig) {table : ConsumeQueueTable}
    (htable : table =
      (dispatchQueue qcfg denv s.store.writeable h.request s.consumeQueueTable).1) :
    (∀ key cq, table key = some cq → Tracked cq ∧
      cq.maxPhysicOffset.toInt < s.store.commitLog.mapedFileQueue.getMaxOffset ∧
      ∀ h ∈ rest, cq.maxPhysicOffset.toInt < h.request.commitLogOffset.toInt) ∧
    ∀ key, ((table key).elim [] ConsumeQueue.entries).filter (· ≠ preBlank) =
      entriesFor (s.dispatched ++ [h]) key := by
  have hrest : ∀ h' ∈ rest, h' ∈ s.requests := fun h' hh' => by
    rw [hreq]
    exact List.mem_cons_of_mem _ hh'
  by_cases hconsumed : isConsumed h.request.sysFlag
  · have hin : ∀ h ∈ s.requests, h ∈ accepted s := fun h hh => List.mem_append_right _ hh
    have hmem : h ∈ s.requests := by
      rw [hreq]
      exact List.mem_cons_self
    obtain ⟨hwriteable, hfile⟩ := hallow hconsumed
    obtain ⟨cq', hput, hentered⟩ := entered_of_dispatched ht hreq (fun h hh => by
      obtain ⟨hpos, -, hsize⟩ := hknown.inLog h (hin h hh)
      exact ⟨hpos, hsize⟩) hconsumed hwriteable hfile qcfg
    obtain ⟨-, -, hplaced⟩ :=
      ht.found (fun h hh => (hknown.inLog h (hin h hh)).1) qcfg (queueOf h.request)
    rw [hput] at htable
    subst htable
    refine ⟨fun key cq hcq => ?_, fun key => ?_⟩
    · rw [Function.update_apply] at hcq
      split_ifs at hcq with hkey
      · obtain rfl := Option.some.inj hcq
        rw [maxPhysicOffset_of_entered hentered]
        refine ⟨hentered.tracked, (hknown.inLog h (hin h hmem)).2.1, fun h' hh' => ?_⟩
        -- the requests are in the order of the log
        have hordered := (List.pairwise_append.mp hknown.ordered).2.1
        rw [hreq] at hordered
        exact List.rel_of_pairwise_cons hordered hh'
      · obtain ⟨htracked, hmax, hwaiting⟩ := ht.tracked key cq hcq
        exact ⟨htracked, hmax, fun h' hh' => hwaiting h' (hrest h' hh')⟩
    · rw [Function.update_apply, entriesFor_append, ← ht.entries]
      split_ifs with hkey
      · rw [hkey, entriesFor_queueOf hconsumed, ← hplaced]
        exact filter_of_entered hentered
      · rw [entriesFor_of_not fun hboth => hkey hboth.2.symm, List.append_nil]
        rfl
  · rw [dispatchQueue, if_neg hconsumed] at htable
    subst htable
    refine ⟨fun key cq hcq => ?_, fun key => ?_⟩
    · obtain ⟨htracked, hmax, hwaiting⟩ := ht.tracked key cq hcq
      exact ⟨htracked, hmax, fun h' hh' => hwaiting h' (hrest h' hh')⟩
    · rw [entriesFor_append, entriesFor_of_not fun hboth => hconsumed hboth.1, List.append_nil]
      exact ht.entries key

end Queue

section Rows

variable {rest : List Handed} {denv : DispatchEnv} {i : ℕ} {row : Row}

/-- The message that a row was made for. -/
lemma Inv.prepared_of_row (hinv : Inv s)
    (hi : (units TSStoreUnitSize s.tranStateTable)[i]? = some row) :
    i < 2 ^ 63 ∧ ∃ p ∈ s.dispatched, IsPrepared p ∧ p.request.commitLogOffset = row.clOffset ∧
      (∃ group, p.request.producerGroup = some group ∧ row.groupHashCode = hashCode group) ∧
      ∃ len f, p.header = some (len, f) ∧ f.queueOffset = Int64.ofNat i := by
  obtain ⟨rows, hheld, hrows⟩ := hinv.aligned.held
  have hbase : (rowsOf s.dispatched)[i]? = some (base row) := by
    rw [← hrows, List.getElem?_map, ← hheld.rows, hi]
    rfl
  have hlt := (List.getElem?_eq_some_iff.mp hbase).1
  have hcount := hinv.aligned.count
  rw [rowsOf_append, List.length_append] at hcount
  obtain ⟨p, hp, hprep, hrow, len, f, hheader, hnumber, hplace, -⟩ :=
    hinv.aligned.numbered.left.of_row hbase
  rw [Nat.zero_add] at hnumber
  rw [rowOf, if_pos hprep] at hrow
  obtain ⟨group, hgroup, heq⟩ := Option.map_eq_some_iff.mp hrow
  exact ⟨by omega, p, hp, hprep, congrArg Row.clOffset heq,
    ⟨group, hgroup, (congrArg Row.groupHashCode heq).symm⟩, len, f, hheader, hnumber⟩

lemma stateOf_eq_prepared {hs : List Handed} {o : Int64} :
    stateOf (decisions hs o) = TransactionPreparedType ↔ decisions hs o = [] := by
  cases hds : decisions hs o with
  | nil => exact iff_of_true rfl rfl
  | cons d ds =>
    obtain ⟨-, hdec, -⟩ := mem_decisions.mp (hds ▸ List.mem_cons_self : d ∈ decisions hs o)
    refine iff_of_false (fun hstate => ?_) (List.cons_ne_nil _ _)
    exact not_isDecision (h := d) hstate hdec

/-- A row of the message that is decided is the one with its number. -/
lemma Inv.row_of_decision (hinv : Inv s) (hreq : s.requests = h :: rest) (hdec : IsDecision h)
    (hi : (units TSStoreUnitSize s.tranStateTable)[i]? = some row)
    (heq : row.clOffset = h.request.preparedTransactionOffset) :
    i < 2 ^ 63 ∧ h.request.tranStateTableOffset = Int64.ofNat i ∧
      ∃ group, h.request.producerGroup = some group ∧ row.groupHashCode = hashCode group := by
  obtain ⟨hlt, p, hp, hprep, hplace, ⟨group, hgroup, hhash⟩, len, f, hheader, hnumber⟩ :=
    hinv.prepared_of_row hi
  have hmem : h ∈ accepted s := by simp [accepted, hreq]
  obtain ⟨hsame, len', f', hheader', hnumber'⟩ := hinv.known.answers h hmem hdec p
    (List.mem_append_left _ hp) hprep (heq.symm.trans hplace.symm)
  rw [hheader, Option.some.injEq, Prod.mk.injEq] at hheader'
  obtain ⟨-, rfl⟩ := hheader'
  exact ⟨hlt, hnumber'.trans hnumber, group, hsame.trans hgroup, hhash⟩

/-- The row with the number is changed by the decision. -/
def Changes (h : Handed) (j : ℕ) (row : Row) : Prop :=
  Int64.ofNat j = h.request.tranStateTableOffset ∧
    row.clOffset = h.request.preparedTransactionOffset ∧
    (∃ group, h.request.producerGroup = some group ∧ row.groupHashCode = hashCode group) ∧
    row.state = TransactionPreparedType

/-- **What a decision writes.** -/
lemma rows_of_decision (denv : DispatchEnv) {rows : List Row} {q : Table} (hheld : Held rows q)
    (hdec : IsDecision h) :
    ∃ rows', Held rows' (dispatchTransaction denv h.request q) ∧ rows'.length = rows.length ∧
      ∀ j < 2 ^ 63, ∀ row', rows'[j]? = some row' → ∃ row, rows[j]? = some row ∧
        (Changes h j row ∧ row' = { row with state := getTransactionValue h.request.sysFlag } ∨
          ¬ Changes h j row ∧ row' = row) := by
  have hprep : ¬ getTransactionValue h.request.sysFlag = TransactionPreparedType :=
    fun hprep : IsPrepared h => not_isDecision hprep hdec
  have htype : getTransactionValue h.request.sysFlag = TransactionCommitType ∨
    getTransactionValue h.request.sysFlag = TransactionRollbackType := hdec
  have hsame : (∀ j row, rows[j]? = some row → j < 2 ^ 63 → ¬ Changes h j row) →
      ∀ j < 2 ^ 63, ∀ row', rows[j]? = some row' → ∃ row, rows[j]? = some row ∧
        (Changes h j row ∧ row' = { row with state := getTransactionValue h.request.sysFlag } ∨
          ¬ Changes h j row ∧ row' = row) :=
    fun hno j hj row' hrow' => ⟨row', hrow', .inr ⟨hno j row' hrow' hj, rfl⟩⟩
  cases hgroup : h.request.producerGroup with
  | none =>
    refine ⟨rows, by rwa [dispatchTransaction, hgroup], rfl, hsame fun j row _ _ hchanges => ?_⟩
    obtain ⟨-, -, ⟨group, hsome, -⟩, -⟩ := hchanges
    rw [hgroup] at hsome
    cases hsome
  | some group =>
    have hupdate : dispatchTransaction denv h.request q =
        (updateTransactionState h.request.tranStateTableOffset h.request.preparedTransactionOffset
          (hashCode group) (getTransactionValue h.request.sysFlag) q).1 := by
      unfold dispatchTransaction
      rw [hgroup]
      dsimp only
      rw [if_neg hprep, if_pos htype]
    obtain ⟨rows', hheld', hbase⟩ := dispatchTransaction_no_row denv hheld hprep
    have hlen := congrArg List.length hbase
    rw [List.length_map, List.length_map] at hlen
    have hread : ∀ j < 2 ^ 63, ∀ {rows : List Row} {q : Table}, Held rows q →
        findTransactionBuffer (Int64.ofNat j) q = rows[j]? := fun j hj rows q hheld => by
      have hint := toInt_ofNat hj
      rw [hheld.find (by omega), hint, Int.toNat_natCast]
    by_cases hfound : ∃ k row, k < 2 ^ 63 ∧ h.request.tranStateTableOffset = Int64.ofNat k ∧
        rows[k]? = some row ∧ row.clOffset = h.request.preparedTransactionOffset ∧
        row.groupHashCode = hashCode group
    · obtain ⟨k, row, hk, hnumber, hrow, hplace, hhash⟩ := hfound
      have hint := toInt_ofNat hk
      refine ⟨rows', hheld', hlen, fun j hj row' hrow' => ?_⟩
      rw [← hread j hj hheld', hupdate, hnumber, ← hplace, ← hhash,
        hheld.find_update (by omega) (by rwa [hint, Int.toNat_natCast]) hdec, hread j hj hheld]
        at hrow'
      split_ifs at hrow' with hboth
      · obtain ⟨hjk, hstate⟩ := hboth
        obtain rfl : j = k := by
          have := toInt_ofNat hj
          rw [hjk, hint] at this
          exact_mod_cast this.symm
        exact ⟨row, hrow, .inl ⟨⟨hnumber.symm, hplace, ⟨group, hgroup, hhash⟩, hstate⟩,
          (Option.some.inj hrow').symm⟩⟩
      · refine ⟨row', hrow', .inr ⟨fun hchanges => hboth ?_, rfl⟩⟩
        obtain ⟨hjk, -, -, hstate⟩ := hchanges
        obtain rfl : j = k := by
          have := toInt_ofNat hj
          rw [hjk, hnumber, hint] at this
          exact_mod_cast this.symm
        obtain rfl : row = row' := Option.some.inj (hrow.symm.trans hrow')
        exact ⟨rfl, hstate⟩
    · have hnone : dispatchTransaction denv h.request q = q := by
        rw [hupdate, updateTransactionState]
        cases hfind : findTransactionBuffer h.request.tranStateTableOffset q with
        | none => rfl
        | some row =>
          have hpos : 0 ≤ h.request.tranStateTableOffset.toInt := by
            by_contra hneg
            rw [findTransactionBuffer, if_pos (by omega)] at hfind
            cases hfind
          rw [hheld.find hpos] at hfind
          dsimp only
          split_ifs with hplace hhash
          · rfl
          · rfl
          · rfl
          · push Not at hplace hhash
            refine absurd ⟨_, row, ?_, ?_, hfind, hplace.symm, hhash.symm⟩ hfound
            · have := Int64.toInt_lt h.request.tranStateTableOffset
              omega
            · rw [← Int64.ofInt_eq_ofNat, Int.toNat_of_nonneg hpos, Int64.ofInt_toInt]
      refine ⟨rows, hnone.symm ▸ hheld, rfl, hsame fun j row hrow hj hchanges => hfound ?_⟩
      obtain ⟨hnumber, hplace, ⟨group', hgroup', hhash⟩, -⟩ := hchanges
      rw [hgroup, Option.some.injEq] at hgroup'
      exact ⟨j, row, hj, hnumber.symm, hrow, hplace, hgroup' ▸ hhash⟩

lemma stateOf_append {ds ds' : List Handed} (hne : ds ≠ []) : stateOf (ds ++ ds') = stateOf ds := by
  cases ds with
  | nil => exact absurd rfl hne
  | cons d ds => rfl

/-- **The rows after a request**, each with the state of the first decision. -/
lemma Inv.states (hinv : Inv s) (hreq : s.requests = h :: rest)
    (hroom : IsPrepared h → denv.tranStateFile ∧ HasRoom TSStoreUnitSize s.tranStateTable) :
    ∀ row ∈ units TSStoreUnitSize (dispatchTransaction denv h.request s.tranStateTable),
      row.state = stateOf (decisions (s.dispatched ++ [h]) row.clOffset) := by
  obtain ⟨rows, hheld, -⟩ := hinv.aligned.held
  have hmem : h ∈ s.requests := by
    rw [hreq]
    exact List.mem_cons_self
  have hold := hinv.tables.states
  rw [hheld.rows] at hold
  by_cases hdec : IsDecision h
  · obtain ⟨rows', hheld', hlen, hchanged⟩ := rows_of_decision denv hheld hdec
    intro row' hrow'
    rw [hheld'.rows] at hrow'
    obtain ⟨j, hj⟩ := List.getElem?_of_mem hrow'
    have hjlt := (List.getElem?_eq_some_iff.mp hj).1
    rw [hlen, ← hheld.rows] at hjlt
    have hsmall := (hinv.prepared_of_row (List.getElem?_eq_getElem hjlt)).1
    obtain ⟨row, hrow, ⟨⟨hnumber, hplace, hgroup, hstate⟩, rfl⟩ | ⟨hno, rfl⟩⟩ :=
      hchanged j hsmall row' hj
    · -- the first decision for the message
      have hnil := stateOf_eq_prepared.mp ((hold row (List.mem_of_getElem? hrow)).symm.trans hstate)
      change _ = stateOf (decisions _ row.clOffset)
      rw [decisions_append, hnil, hplace, decisions_of_decides hdec]
      rfl
    · rw [hold row' (List.mem_of_getElem? hrow), decisions_append]
      by_cases heq : row'.clOffset = h.request.preparedTransactionOffset
      · obtain ⟨-, hnumber, hgroup⟩ := hinv.row_of_decision hreq hdec (hheld.rows ▸ hrow) heq
        refine (stateOf_append fun hnil => hno ⟨hnumber.symm, heq, hgroup, ?_⟩).symm
        rw [hold row' (List.mem_of_getElem? hrow), hnil]
        rfl
      · rw [decisions_of_not fun hboth => heq hboth.2.symm, List.append_nil]
  · have hsame : ∀ o, decisions (s.dispatched ++ [h]) o = decisions s.dispatched o := fun o => by
      rw [decisions_append, decisions_of_not fun hboth => hdec hboth.1, List.append_nil]
    simp only [hsame]
    by_cases hprep : IsPrepared h
    · obtain ⟨-, row, hrow, -⟩ :=
        hinv.aligned.numbered.row (List.mem_append_right _ hmem) hprep
      obtain ⟨hpos, hsize⟩ := hinv.aligned.valid h hmem row hrow
      obtain ⟨hfile, hroom⟩ := hroom hprep
      have hheld' := dispatchTransaction_row hheld hrow hfile hroom hpos hsize
      rw [hheld'.rows]
      refine List.forall_mem_append.mpr ⟨hold, List.forall_mem_singleton.mpr ?_⟩
      rw [rowOf, if_pos hprep] at hrow
      obtain ⟨group, -, rfl⟩ := Option.map_eq_some_iff.mp hrow
      -- nothing was decided before the message was put
      refine (stateOf_eq_prepared.mpr (List.eq_nil_iff_forall_not_mem.mpr fun d hd => ?_)).symm
      obtain ⟨hdisp, hd, hplace⟩ := mem_decisions.mp hd
      have hbehind := hinv.known.behind d (List.mem_append_left _ hdisp) hd
      have hbefore := (List.pairwise_append.mp hinv.known.ordered).2.2 d hdisp h hmem
      rw [hplace] at hbehind
      exact absurd hbehind (not_lt.mpr hbefore.le)
    · have hnone : dispatchTransaction denv h.request s.tranStateTable = s.tranStateTable := by
        unfold dispatchTransaction
        split
        · rfl
        · exact (if_neg hprep).trans (if_neg hdec)
      rw [hnone, hheld.rows]
      exact hold

end Rows

/-- **A request is dispatched.** -/
lemma inv_dispatch {denv : DispatchEnv} (hinv : Inv s) (hallow : Allowed cfg s (.dispatch denv))
    (hs : MasterStore.step cfg s (.dispatch denv) = some s') : Inv s' := by
  have haligned := Alignment.inv_dispatch hinv.aligned hallow.1 hs
  rw [MasterStore.step] at hs
  cases hreq : s.requests with
  | nil => simp [hreq] at hs
  | cons h rest =>
    simp only [hreq, Option.some.injEq] at hs
    subst hs
    obtain ⟨hroom, hqueue⟩ := hallow
    obtain ⟨htracked, hentries⟩ := hinv.tables.queues hreq hinv.known
      (hqueue h (by rw [hreq]; rfl)) cfg.queue rfl
    refine ⟨haligned, ?_, htracked, hentries, hinv.states hreq (hroom h (by rw [hreq]; rfl)).1⟩
    have hknown := hinv.known
    rwa [accepted, hreq, List.append_cons] at hknown

lemma inv_step {a : Action} (hinv : Inv s) (hallow : Allowed cfg s a)
    (hs : step cfg s a = some s') : Inv s' := by
  cases a with
  | put env m => exact inv_put hinv hallow hs
  | endTransaction env requestHeader => exact inv_endTransaction hinv hallow hs
  | dispatch denv => exact inv_dispatch hinv hallow hs

lemma inv_newMaster {size tableSize : ℕ} (hsize : 0 < size) (htable : 0 < tableSize)
    (hrow : TSStoreUnitSize ≤ tableSize) : Inv (newMaster hsize htable) where
  aligned := Alignment.inv_newMaster hsize htable hrow
  known := ⟨.nil, by simp [accepted, newMaster], by simp [accepted, newMaster],
    by simp [accepted, newMaster], by simp [accepted, newMaster],
    by simp [accepted, newMaster, decisions]⟩
  tables := ⟨by simp [newMaster], fun _ => rfl, by simp [newMaster, units, Chain.empty]⟩

/-! ### What is visible -/

section Outcome

variable {key key' : Text × Int32} {u : CQUnit}

lemma Accepted.eq_of_offset {hs : List Handed} {q : MapedFileQueue Bytes} (ha : Accepted hs q)
    {h h' : Handed} (hh : h ∈ hs) (hh' : h' ∈ hs)
    (heq : h.request.commitLogOffset = h'.request.commitLogOffset) : h = h' := by
  obtain ⟨i, hi, rfl⟩ := List.getElem_of_mem hh
  obtain ⟨j, hj, rfl⟩ := List.getElem_of_mem hh'
  have hordered := List.pairwise_iff_getElem.mp ha.ordered
  rcases Nat.lt_trichotomy i j with hlt | rfl | hlt
  · have := hordered i j hi hj hlt
    rw [heq] at this
    exact absurd this (lt_irrefl _)
  · rfl
  · have := hordered j i hj hi hlt
    rw [heq] at this
    exact absurd this (lt_irrefl _)

lemma isConsumed_of_commit (hcommit : IsCommit h) : isConsumed h.request.sysFlag := .inr hcommit

/-- A commit is the first decision. -/
lemma Accepted.head_of_commit {hs : List Handed} {q : MapedFileQueue Bytes} {o : Int64}
    (ha : Accepted hs q) (hh : h ∈ decisions hs o) (hcommit : IsCommit h) :
    (decisions hs o).head? = some h := by
  have hsettled := ha.settled o h
  cases hds : decisions hs o with
  | nil =>
    rw [hds] at hh
    exact absurd hh List.not_mem_nil
  | cons d ds =>
    rw [hds] at hh hsettled
    rcases List.mem_cons.mp hh with rfl | hh
    · rfl
    · exact absurd hcommit (hsettled hh)

/-- The entries of a queue are in the order of the log. -/
lemma Inv.pairwise_placed (hinv : Inv s) (key : Text × Int32) :
    (placed s key).Pairwise fun u v => u.offset.toInt < v.offset.toInt := by
  rw [hinv.tables.entries, entriesFor]
  refine List.Pairwise.filter _ (List.pairwise_map.mpr (List.Pairwise.filter _ ?_))
  exact (List.pairwise_append.mp hinv.known.ordered).1

/-- An entry of a prepared message is the one of its commit. -/
lemma Inv.commit_of_contributed (hinv : Inv s) (hp : p ∈ accepted s) (hprep : IsPrepared p)
    (hu : u ∈ contributed s p key) :
    ∃ h ∈ s.dispatched, h ∈ decisions (accepted s) p.request.commitLogOffset ∧ IsCommit h ∧
      queueOf h.request = key ∧ cqUnit h.request = u := by
  obtain ⟨hplaced, hof⟩ := List.mem_filter.mp hu
  rw [hinv.tables.entries] at hplaced
  obtain ⟨h, hh, rfl⟩ := List.mem_map.mp (List.mem_filter.mp hplaced).1
  obtain ⟨hdisp, hboth⟩ := List.mem_filter.mp hh
  obtain ⟨hconsumed, hqueue⟩ := of_decide_eq_true hboth
  have hmem : h ∈ accepted s := List.mem_append_left _ hdisp
  rcases of_decide_eq_true hof with hown | ⟨d, hd, hcommit, heq⟩
  · -- the record of the message itself cannot be consumed
    obtain rfl := hinv.known.eq_of_offset hmem hp hown
    unfold isConsumed at hconsumed
    rw [show getTransactionValue h.request.sysFlag = _ from hprep] at hconsumed
    exact absurd hconsumed (by decide)
  · obtain rfl := hinv.known.eq_of_offset (mem_decisions.mp hd).1 hmem heq
    exact ⟨d, hdisp, hd, hcommit, hqueue, rfl⟩

/-- **Visible** is what was committed, once that is dispatched. -/
lemma Inv.visible_iff (hinv : Inv s) (hp : p ∈ accepted s) (hprep : IsPrepared p) :
    Visible s p ↔ ∃ h ∈ decisions s.dispatched p.request.commitLogOffset, IsCommit h := by
  constructor
  · rintro ⟨key, hne⟩
    obtain ⟨u, hu⟩ := List.exists_mem_of_ne_nil _ hne
    obtain ⟨h, hdisp, hd, hcommit, -⟩ := hinv.commit_of_contributed hp hprep hu
    obtain ⟨-, hdec, hplace⟩ := mem_decisions.mp hd
    exact ⟨h, mem_decisions.mpr ⟨hdisp, hdec, hplace⟩, hcommit⟩
  · rintro ⟨h, hd, hcommit⟩
    obtain ⟨hdisp, hdec, hplace⟩ := mem_decisions.mp hd
    have hmem : h ∈ accepted s := List.mem_append_left _ hdisp
    have hbehind := hinv.known.behind h hmem hdec
    have hpos := (hinv.known.inLog p hp).1
    rw [hplace] at hbehind
    have hne : cqUnit h.request ≠ preBlank := fun heq => by
      have hzero : h.request.commitLogOffset = 0 := congrArg CQUnit.offset heq
      rw [hzero] at hbehind
      change p.request.commitLogOffset.toInt < 0 at hbehind
      omega
    refine ⟨queueOf h.request, List.ne_nil_of_mem (a := cqUnit h.request) ?_⟩
    rw [contributed, List.mem_filter, hinv.tables.entries]
    refine ⟨List.mem_filter.mpr ⟨List.mem_map.mpr ⟨h, List.mem_filter.mpr ⟨hdisp,
      decide_eq_true ⟨isConsumed_of_commit hcommit, rfl⟩⟩, rfl⟩, decide_eq_true hne⟩,
      decide_eq_true (.inr ⟨h, mem_decisions.mpr ⟨hmem, hdec, hplace⟩, hcommit, rfl⟩)⟩

/-- The first decision that was dispatched is the first one that was accepted. -/
lemma stateOf_dispatched {o : Int64} (hne : decisions s.dispatched o ≠ []) :
    stateOf (decisions (accepted s) o) = stateOf (decisions s.dispatched o) := by
  rw [accepted, decisions_append, stateOf_append hne]

lemma Inv.outcome (hinv : Inv s) (hp : p ∈ accepted s) (hprep : IsPrepared p) : Outcome s p where
  once key := by
    have hordered := List.Pairwise.filter (fun u => decide (IsOf (accepted s) p u))
      (hinv.pairwise_placed key)
    change (contributed s p key).Pairwise _ at hordered
    have hmem : ∀ u ∈ contributed s p key, ∃ h,
        (decisions (accepted s) p.request.commitLogOffset).head? = some h ∧
          cqUnit h.request = u := by
      intro u hu
      obtain ⟨h, -, hd, hcommit, -, rfl⟩ := hinv.commit_of_contributed hp hprep hu
      exact ⟨h, hinv.known.head_of_commit hd hcommit, rfl⟩
    rcases hcs : contributed s p key with _ | ⟨u, _ | ⟨v, us⟩⟩
    · exact Nat.zero_le 1
    · exact le_rfl
    · -- two entries would be those of the first decision
      rw [hcs] at hordered hmem
      obtain ⟨h, hh, rfl⟩ := hmem u List.mem_cons_self
      obtain ⟨h', hh', rfl⟩ := hmem v (List.mem_cons_of_mem _ List.mem_cons_self)
      obtain rfl := Option.some.inj (hh.symm.trans hh')
      exact absurd (List.rel_of_pairwise_cons hordered List.mem_cons_self) (lt_irrefl _)
  oneQueue key key' hne hne' := by
    obtain ⟨u, hu⟩ := List.exists_mem_of_ne_nil _ hne
    obtain ⟨u', hu'⟩ := List.exists_mem_of_ne_nil _ hne'
    obtain ⟨h, -, hd, hcommit, rfl, -⟩ := hinv.commit_of_contributed hp hprep hu
    obtain ⟨h', -, hd', hcommit', rfl, -⟩ := hinv.commit_of_contributed hp hprep hu'
    obtain rfl := Option.some.inj ((hinv.known.head_of_commit hd hcommit).symm.trans
      (hinv.known.head_of_commit hd' hcommit'))
    rfl
  rolledBack h hh hno := by
    rintro ⟨key, hne⟩
    obtain ⟨u, hu⟩ := List.exists_mem_of_ne_nil _ hne
    obtain ⟨h', -, hd, hcommit, -⟩ := hinv.commit_of_contributed hp hprep hu
    obtain rfl := Option.some.inj (hh.symm.trans (hinv.known.head_of_commit hd hcommit))
    exact hno hcommit
  row hdisp := by
    obtain ⟨len, f, hheader, hplace⟩ := (hinv.known.recorded p hp hprep).header
    obtain ⟨group, row, -, hfind, hrow, -⟩ :=
      hinv.aligned.aligned p hdisp hprep len f hheader
    rw [hplace] at hrow
    refine ⟨len, f, row, hheader, hfind, hrow, ?_⟩
    rw [hinv.visible_iff hp hprep]
    obtain ⟨rows, hheld, -⟩ := hinv.aligned.held
    have hmem : row ∈ units TSStoreUnitSize s.tranStateTable := by
      have hpos : 0 ≤ f.queueOffset.toInt := by
        by_contra hneg
        rw [findTransactionBuffer, if_pos (by omega)] at hfind
        cases hfind
      rw [hheld.find hpos] at hfind
      rw [hheld.rows]
      exact List.mem_of_getElem? hfind
    rw [hinv.tables.states row hmem, hrow]
    constructor
    · intro hstate
      cases hds : decisions s.dispatched p.request.commitLogOffset with
      | nil =>
        rw [hds] at hstate
        exact absurd hstate (by decide)
      | cons d ds =>
        rw [hds] at hstate
        exact ⟨d, List.mem_cons_self, hstate⟩
    · rintro ⟨h, hd, hcommit⟩
      obtain ⟨hdisp', hdec, hoff⟩ := mem_decisions.mp hd
      have hhead := hinv.known.head_of_commit
        (mem_decisions.mpr ⟨List.mem_append_left _ hdisp', hdec, hoff⟩) hcommit
      rw [← stateOf_dispatched (List.ne_nil_of_mem hd)]
      obtain ⟨ds, hds⟩ := List.head?_eq_some_iff.mp hhead
      rw [hds]
      exact hcommit

end Outcome

/-- **The outcome of transactions.** As long as every commit that passes the checks is the first
decision for its message, and what is accepted can be written and dispatched, each prepared message
is visible once at the most, not after a rollback, and its row says whether it is. -/
theorem outcome_of_meets {cfg : Config} {size tableSize : ℕ} (hsize : 0 < size)
    (htable : 0 < tableSize) (hrow : TSStoreUnitSize ≤ tableSize) {as : List Action} {s : Master}
    (hok : Meets (step cfg) (Allowed cfg) (newMaster hsize htable) as)
    (hr : run (step cfg) (newMaster hsize htable) as = some s) :
    ∀ p ∈ accepted s, IsPrepared p → Outcome s p := by
  intro p hp hprep
  have hinv : Inv s :=
    run_invariant (fun _ _ _ => inv_step) (inv_newMaster hsize htable hrow) hok hr
  exact hinv.outcome hp hprep

/-! ### One message, committed twice -/

/-- The answer of the producer to the message at offset 0, which has the first row. -/
def answer (commitOrRollback : Int32) (fromTransactionCheck : Bool) : Action :=
  .endTransaction zeroEnv ⟨"g".toList, 0, 0, commitOrRollback, fromTransactionCheck⟩

def preparedRun : List Action :=
  [.put zeroEnv (groupMessage TransactionPreparedType), .dispatch allFiles]

/-- The producer commits, and commits again when it is asked. -/
def committedTwice : List Action :=
  preparedRun ++ [answer TransactionCommitType false, answer TransactionCommitType true,
    .dispatch allFiles, .dispatch allFiles]

/-- What the first message contributes to its queue, and the state of the first row. -/
def firstOutcome (s : Master) : Option (Bool × ℕ × Option Int32) :=
  (accepted s).head?.map fun p => (decide (IsPrepared p),
    (contributed s p (queueOf p.request)).length,
    (findTransactionBuffer 0 s.tranStateTable).map Row.state)

/-- Both commits are visible. -/
theorem outcome_committed_twice :
    ∃ s, run (step testConfig) testMaster committedTwice = some s ∧
      ∃ p ∈ accepted s, IsPrepared p ∧ ¬ Outcome s p := by
  have hrun : (run (step testConfig) testMaster committedTwice).bind firstOutcome =
      some (true, 2, some TransactionCommitType) := by
    decide +kernel
  obtain ⟨s, hs, hfirst⟩ := Option.bind_eq_some_iff.mp hrun
  obtain ⟨p, hp, heq⟩ := Option.map_eq_some_iff.mp hfirst
  simp only [Prod.mk.injEq, decide_eq_true_eq] at heq
  refine ⟨s, hs, p, List.mem_of_mem_head? hp, heq.1, fun houtcome => ?_⟩
  have honce := houtcome.once (queueOf p.request)
  rw [heq.2.1] at honce
  exact absurd honce (by decide)

/-- `Allowed`, decided. -/
def allows (cfg : Config) (s : Master) : Action → Bool
  | .put env m => (prepare cfg.store env m).all fun p => decide
      ((recordSize p.1 + END_FILE_MIN_BLANK_LENGTH ≤
          s.store.commitLog.mapedFileQueue.mapedFileSize ∧
        s.store.commitLog.mapedFileQueue.getMaxOffset +
          s.store.commitLog.mapedFileQueue.mapedFileSize < 2 ^ 63) ∧
        (getTransactionValue p.1.sysFlag = TransactionNotType ∨
          getTransactionValue p.1.sysFlag = TransactionPreparedType ∧
          (p.1.topicData.length ≤ 127 ∧ p.1.propertiesData.length ≤ 32767) ∧
          (p.1.getProperty PROPERTY_PRODUCER_GROUP).isSome ∧
          (storedProps p.1).get PROPERTY_PRODUCER_GROUP =
            p.1.getProperty PROPERTY_PRODUCER_GROUP ∧
          s.store.commitLog.counters.tranStateTableOffset.toInt + 1 < 2 ^ 63))
  | .endTransaction env requestHeader =>
    match lookMessageByOffset s.store.commitLog.mapedFileQueue requestHeader.commitLogOffset with
    | .ok (some msgExt) => decide
        ((recordSize (msgInner env.entryOrder requestHeader msgExt) + END_FILE_MIN_BLANK_LENGTH ≤
            s.store.commitLog.mapedFileQueue.mapedFileSize ∧
          s.store.commitLog.mapedFileQueue.getMaxOffset +
            s.store.commitLog.mapedFileQueue.mapedFileSize < 2 ^ 63) ∧
        (requestHeader.commitOrRollback = TransactionCommitType →
          (decisions (accepted s) requestHeader.commitLogOffset).isEmpty))
    | _ => true
  | .dispatch env => Alignment.allows cfg s (.dispatch env) &&
      s.requests.head?.all fun h => decide (isConsumed h.request.sysFlag →
        s.store.writeable ∧ ∃ i < ConsumeQueue.MaxRetries, env.consumeQueueFile i)

lemma allowed_of_allows {a : Action} (h : allows cfg s a) : Allowed cfg s a := by
  cases a with
  | put env m =>
    intro m' tagsCode hprep
    rw [allows, hprep, Option.all_some] at h
    obtain ⟨hplace, hnot | ⟨htype, ⟨htopic, hproperties⟩, hgroup, hstored, hcounter⟩⟩ :=
      of_decide_eq_true h
    · exact ⟨hplace, .inl hnot⟩
    · exact ⟨hplace, .inr ⟨htype, ⟨htopic, hproperties⟩, hgroup, hstored, hcounter⟩⟩
  | endTransaction env requestHeader =>
    intro msgExt hlook _
    rw [allows, hlook] at h
    obtain ⟨hplace, hfirst⟩ := of_decide_eq_true h
    exact ⟨hplace, fun hcommit => List.isEmpty_iff.mp (hfirst hcommit)⟩
  | dispatch env =>
    rw [allows, Bool.and_eq_true] at h
    refine ⟨Alignment.allowed_of_allows h.1, fun h₀ hh₀ => ?_⟩
    have hqueue := h.2
    rw [Option.mem_def.mp hh₀, Option.all_some] at hqueue
    exact of_decide_eq_true hqueue

/-- The producer commits, and wants to roll back when it is asked. -/
def committedRun : List Action :=
  preparedRun ++ [answer TransactionCommitType false, answer TransactionRollbackType true,
    .dispatch allFiles, .dispatch allFiles]

theorem outcome_committed :
    ∃ s, run (step testConfig) testMaster committedRun = some s ∧
      firstOutcome s = some (true, 1, some TransactionCommitType) ∧
      ∀ p ∈ accepted s, IsPrepared p → Outcome s p := by
  have hrun : (run (step testConfig) testMaster committedRun).bind firstOutcome =
      some (true, 1, some TransactionCommitType) := by
    decide +kernel
  obtain ⟨s, hs, hfirst⟩ := Option.bind_eq_some_iff.mp hrun
  have hok : checks (step testConfig) (allows testConfig) testMaster committedRun := by
    decide +kernel
  exact ⟨s, hs, hfirst, outcome_of_meets Chain.pos_1024 pos_2400 (by decide)
    (meets_of_checks (fun _ _ => allowed_of_allows) hok) hs⟩

end CloudMQ.TransactionOutcome
