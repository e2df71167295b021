import CloudMQ.ConsumeQueues
import CloudMQ.TransactionState

/-!
`DispatchMessageService.doDispatch`, one request at a time: an entry for the consume queue, when
the message can be consumed at all, and a row or an update for the transaction state table, when
the message names its producer group.
-/

namespace CloudMQ.Dispatch

open CloudMQ.Utf8 CloudMQ.Strings CloudMQ.Message CloudMQ.ConsumeQueues CloudMQ.TransactionState
open CloudMQ.Units

/-- The size of consume queue files is rounded up to a whole number of entries. -/
structure QueueConfig where
  mapedFileSizeConsumeQueue : ℕ
  pos : 0 < mapedFileSizeConsumeQueue

def QueueConfig.getMapedFileSizeConsumeQueue (cfg : QueueConfig) : ℕ :=
  (cfg.mapedFileSizeConsumeQueue + (CQStoreUnitSize - 1)) / CQStoreUnitSize * CQStoreUnitSize

lemma QueueConfig.size_pos (cfg : QueueConfig) : 0 < cfg.getMapedFileSizeConsumeQueue := by
  have := cfg.pos
  simp only [getMapedFileSizeConsumeQueue, CQStoreUnitSize]
  omega

lemma QueueConfig.dvd_size (cfg : QueueConfig) :
    CQStoreUnitSize ∣ cfg.getMapedFileSizeConsumeQueue := Nat.dvd_mul_left _ _

/-- Which files can be created while a request is dispatched. -/
structure DispatchEnv where
  /-- by the number of tries left -/
  consumeQueueFile : ℕ → Bool
  tranStateFile : Bool

variable (cfg : QueueConfig) (env : DispatchEnv)

/-- A queue is made when it is looked for. -/
def findConsumeQueue (key : Text × Int32) (table : ConsumeQueueTable) : ConsumeQueue :=
  (table key).getD (newQueue cfg.getMapedFileSizeConsumeQueue cfg.size_pos)

def cqUnit (req : DispatchRequest) : CQUnit := ⟨req.commitLogOffset, req.msgSize, req.tagsCode⟩

/-- The queue of a request. -/
def queueOf (req : DispatchRequest) : Text × Int32 := (req.topic, req.queueId)

/-- `DefaultMessageStore.putMessagePostionInfo`. Queue offsets come from a counter and are not
negative. -/
def putMessagePostionInfo (writeable : Bool) (req : DispatchRequest) (table : ConsumeQueueTable) :
    ConsumeQueueTable × Bool :=
  let r := (findConsumeQueue cfg (queueOf req) table).putMessagePostionInfoWrapper writeable
    env.consumeQueueFile (cqUnit req) req.consumeQueueOffset.toInt.toNat
  (Function.update table (queueOf req) (some r.1), r.2)

/-- Messages of these types can be consumed. -/
def isConsumed (sysFlag : Int32) : Prop :=
  getTransactionValue sysFlag = TransactionNotType ∨
    getTransactionValue sysFlag = TransactionCommitType

instance (sysFlag : Int32) : Decidable (isConsumed sysFlag) :=
  inferInstanceAs (Decidable (_ ∨ _))

/-- The first half of `doDispatch`; the answer is whether the store stays writeable. -/
def dispatchQueue (writeable : Bool) (req : DispatchRequest) (table : ConsumeQueueTable) :
    ConsumeQueueTable × Bool :=
  if isConsumed req.sysFlag then
    let r := putMessagePostionInfo cfg env writeable req table
    (r.1, writeable && r.2)
  else (table, writeable)

/-- The second half. The answers of the table are not looked at. -/
def dispatchTransaction (req : DispatchRequest) (q : Table) : Table :=
  match req.producerGroup with
  | none => q
  | some group =>
    let tranType := getTransactionValue req.sysFlag
    if tranType = TransactionPreparedType then
      (appendPreparedTransaction env.tranStateFile req.commitLogOffset req.msgSize
        (req.storeTimestamp / 1000).toInt32 (hashCode group) q).1
    else if tranType = TransactionCommitType ∨ tranType = TransactionRollbackType then
      (updateTransactionState req.tranStateTableOffset req.preparedTransactionOffset
        (hashCode group) tranType q).1
    else q

end CloudMQ.Dispatch
