import CloudMQ.Dispatch
import CloudMQ.Puts
import CloudMQ.Restart

/-!
A master store: messages are put, the dispatch service works through the requests in the order of
the log, and in between the store is shut down and started again. A normal shutdown dispatches
every request.
-/

namespace CloudMQ.MasterStore

open CloudMQ.Buffer CloudMQ.Utf8 CloudMQ.Strings CloudMQ.Message CloudMQ.Record CloudMQ.Codec
open CloudMQ.Segment CloudMQ.Chain CloudMQ.CommitLog CloudMQ.Append CloudMQ.Agreement
open CloudMQ.Recover CloudMQ.Records CloudMQ.Units CloudMQ.ConsumeQueues
open CloudMQ.TransactionState CloudMQ.Dispatch CloudMQ.Puts CloudMQ.Runs

/-! ### The header of a record -/

/-- Total size and fixed fields, when the record is one of a message. -/
def readHeader : Reader (Int32 × Fixed) := do
  let totalSize ← getInt
  let magicCode ← getInt
  if magicCode = MessageMagicCode then do
    let f ← readFixed 8
    return (totalSize, f)
  else Reader.fail

/-- The header of the message that stands in the log at the given offset. -/
def headerAt (q : MapedFileQueue Bytes) (offset : ℕ) : Option (Int32 × Fixed) :=
  (readHeader.run (sliceAt q offset)).map Prod.fst

lemma readHeader_append {m : MessageExtBrokerInner} {len : Int32} {bh sh : Bytes} {qo : Int64}
    {p : ℕ} (hb : bh.length = 8) (hs : sh.length = 8) (rest : Bytes) :
    (readHeader.run (recordBytes m len bh sh qo p ++ rest)).map Prod.fst =
      some (len, fixedOf m qo p) := by
  rw [recordBytes_eq, readHeader]
  simp only [List.append_assoc]
  rw [Reader.run_bind_of_some (getInt_putInt _ _), Reader.run_bind_of_some (getInt_putInt _ _),
    if_pos rfl, Reader.run_bind_of_some (readFixed_append hb hs le_rfl _)]
  rfl

lemma headerAt_wrote {m : MessageExtBrokerInner} {log log' : Log} {result : AppendMessageResult}
    (h : WroteMessage m log log' result) :
    headerAt log'.mapedFileQueue result.wroteOffset =
      some (Int32.ofNat (recordSize m), fixedOf m result.logicsOffset result.wroteOffset) := by
  obtain ⟨bh, sh, hb, hs, -, rest, hslice⟩ := h.record
  rw [headerAt, hslice, readHeader_append hb hs]

/-! ### The state -/

/-- A request, and the header of the record it was made for as it stood in the log then. -/
structure Handed where
  request : DispatchRequest
  header : Option (Int32 × Fixed)

structure Master where
  store : Store
  requests : List Handed
  consumeQueueTable : ConsumeQueueTable
  tranStateTable : Table
  /-- the requests that were dispatched so far -/
  dispatched : List Handed

structure Config where
  store : MessageStoreConfig
  queue : QueueConfig

inductive Action
  | put (env : Env) (m : MessageExtBrokerInner)
  | dispatch (env : DispatchEnv)
  /-- `order` is the order in which the table lists its queues -/
  | restart (checkCRCOnRecover : Bool) (order : List (Text × Int32))

/-- The request of a call that stored a message. -/
def handed (q : MapedFileQueue Bytes) (r : Except Thrown Put) : List Handed :=
  match r with
  | .error _ => []
  | .ok put =>
    match put.dispatched, put.result.appendMessageResult with
    | some request, some result => [⟨request, headerAt q result.wroteOffset⟩]
    | _, _ => []

/-- `recoverTopicQueueTable`: the counters are the ends of the queues. -/
def recoverTopicQueueTable (order : List (Text × Int32)) (table : ConsumeQueueTable) :
    Text → Option Int64 :=
  order.foldl (fun counters key =>
    match table key with
    | none => counters
    | some cq => Function.update counters (queueKey key.1 key.2)
        (some (Int64.ofNat cq.getMaxOffsetInQuque))) fun _ => none

/-- The queues that have files are loaded and recovered. -/
def recoverConsumeQueue (minPhyOffset : ℤ) (table : ConsumeQueueTable) : ConsumeQueueTable :=
  fun key => (table key).bind fun cq =>
    if cq.mapedFileQueue.mapedFiles = [] then none
    else some (cq.load.recover.correctMinOffset minPhyOffset)

/-- `load` and `recover` after a normal shutdown. -/
def restart (cfg : Config) (checkCRCOnRecover : Bool) (order : List (Text × Int32)) (s : Master) :
    Option Master := do
  let q ← recoverNormally (recoverCheck cfg.store (some cfg.store.scheduleMessageService)
    checkCRCOnRecover) (reload s.store.commitLog.mapedFileQueue)
  let (table, tranStateTableOffset) ← recoverStateTableNormal (reload s.tranStateTable)
  let queues := recoverConsumeQueue q.getMinOffset s.consumeQueueTable
  return { s with
    store := ⟨false, true, ⟨q, recoverTopicQueueTable order queues, tranStateTableOffset.getD 0⟩⟩
    consumeQueueTable := queues
    tranStateTable := table }

def step (cfg : Config) (s : Master) : Action → Option Master
  | .put env m =>
    let r := s.store.putMessage cfg.store env m
    some { s with store := r.1
                  requests := s.requests ++ handed r.1.commitLog.mapedFileQueue r.2 }
  | .dispatch env =>
    match s.requests with
    | [] => none
    | h :: rest =>
      let r := dispatchQueue cfg.queue env s.store.writeable h.request s.consumeQueueTable
      some { store := { s.store with writeable := r.2 }
             requests := rest
             consumeQueueTable := r.1
             tranStateTable := dispatchTransaction env h.request s.tranStateTable
             dispatched := s.dispatched ++ [h] }
  | .restart checkCRCOnRecover order =>
    if s.requests = [] then restart cfg checkCRCOnRecover order s else none

/-- A new store; its files have the given sizes. -/
def newMaster {size tableSize : ℕ} (hsize : 0 < size) (htable : 0 < tableSize) : Master where
  store := ⟨false, true, ⟨Chain.empty size hsize, ⟨fun _ => none, 0⟩⟩⟩
  requests := []
  consumeQueueTable := fun _ => none
  tranStateTable := Chain.empty tableSize htable
  dispatched := []

end CloudMQ.MasterStore
