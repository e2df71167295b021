import CloudMQ.Alignment
import CloudMQ.EndTransaction
import CloudMQ.QueueEntries
import CloudMQ.SortedMaps

/-!
The transaction state table after an abnormal exit: `recoverStateTable` without a normal shutdown.

The table is destroyed then and written anew, from a redo log of the messages that were prepared,
committed and rolled back. The log is read at every abnormal start, and nothing in the store ever
puts an entry into it.
-/

namespace CloudMQ.StateTableRebuild

open CloudMQ.Buffer CloudMQ.Utf8 CloudMQ.Strings CloudMQ.Message CloudMQ.Record CloudMQ.CommitLog
open CloudMQ.Segment CloudMQ.Chain CloudMQ.Agreement CloudMQ.Units CloudMQ.Recover CloudMQ.Records
open CloudMQ.ConsumeQueues CloudMQ.QueueEntries CloudMQ.SortedMaps CloudMQ.TransactionState
open CloudMQ.Dispatch CloudMQ.Runs CloudMQ.MasterStore CloudMQ.Alignment
open CloudMQ.MessageDecoder CloudMQ.EndTransaction

/-! ### Rebuilding -/

def PreparedMessageTagsCode : Int64 := -1

/-- An entry of the redo log: a prepared message, or one that ends the message at the offset its
tags code gives. -/
def redo (preparedItemSet : TreeMap ℤ Unit) (u : CQUnit) : TreeMap ℤ Unit :=
  if PreparedMessageTagsCode = u.tagsCode then preparedItemSet.put u.offset.toInt ()
  else preparedItemSet.remove u.tagsCode.toInt

/-- The scan; `none` is one that has not ended yet. What was read of a buffer is counted in bytes
and added to a number of entries. -/
def scanRedoLog (tranRedoLog : ConsumeQueue) :
    ℕ → ℕ → TreeMap ℤ Unit → Option (TreeMap ℤ Unit)
  | 0, _, _ => none
  | fuel + 1, processOffset, preparedItemSet =>
    match getIndexBuffer tranRedoLog processOffset with
    | none => some preparedItemSet
    | some us =>
      scanRedoLog tranRedoLog fuel (processOffset + CQStoreUnitSize * us.length)
        (us.foldl redo preparedItemSet)

structure TransactionStateService where
  tranStateTable : Table
  tranStateTableOffset : Int64
  tranRedoLog : ConsumeQueue

/-- A row for each message that is left; `none` is an exception. `created` says whether a file can
be created for the row. -/
def appendRows (log : MapedFileQueue Bytes) (created : ℤ → Bool) :
    List ℤ → Table × Int64 → Option (Table × Int64)
  | [], t => some t
  | offset :: rest, t =>
    match lookMessageByOffset log (Int64.ofInt offset) with
    | .error _ => none
    | .ok none => appendRows log created rest t
    | .ok (some msgExt) => do
      let group ← msgExt.getProperty PROPERTY_PRODUCER_GROUP
      appendRows log created rest
        ((appendPreparedTransaction (created offset) msgExt.commitLogOffset msgExt.storeSize
          (msgExt.storeTimestamp / 1000).toInt32 (hashCode group) t.1).1, t.2 + 1)

/-- `recreateStateTable`. Every buffer of the redo log moves the scan on by an entry at least. -/
def recreateStateTable (log : MapedFileQueue Bytes) (created : ℤ → Bool)
    (s : TransactionStateService) : Option TransactionStateService := do
  let fresh : Table := Chain.empty s.tranStateTable.mapedFileSize s.tranStateTable.size_pos
  let preparedItemSet ← scanRedoLog s.tranRedoLog (s.tranRedoLog.getMaxOffsetInQuque + 1)
    s.tranRedoLog.getMinOffsetInQuque ∅
  let (tranStateTable, tranStateTableOffset) ←
    appendRows log created preparedItemSet.keys (fresh, s.tranStateTableOffset)
  return { s with tranStateTable, tranStateTableOffset }

/-- `MapedFileQueue.destroy`. -/
def destroy (q : Table) : Table := { q with mapedFiles := [], committedWhere := 0 }

def recoverStateTable (lastExitOK : Bool) (log : MapedFileQueue Bytes) (created : ℤ → Bool)
    (s : TransactionStateService) : Option TransactionStateService :=
  if lastExitOK then
    (recoverStateTableNormal s.tranStateTable).map fun r =>
      { s with tranStateTable := r.1
               tranStateTableOffset := r.2.getD s.tranStateTableOffset }
  else recreateStateTable log created { s with tranStateTable := destroy s.tranStateTable }

/-! ### The store and a crash -/

/-- A master store with the redo log of its transaction state service. -/
structure TranStore where
  master : Master
  tranRedoLog : ConsumeQueue

/-- The redo log is loaded with the store; no other step concerns it. -/
def step (cfg : Config) (s : TranStore) (a : MasterStore.Action) : Option TranStore :=
  (MasterStore.step cfg s.master a).map fun master =>
    { master := master
      tranRedoLog := match a with
        | .restart _ _ => s.tranRedoLog.load
        | .put _ _ | .dispatch _ => s.tranRedoLog }

def newStore {size tableSize redoSize : ℕ} (hsize : 0 < size) (htable : 0 < tableSize)
    (hredo : 0 < redoSize) : TranStore :=
  ⟨newMaster hsize htable, newQueue redoSize hredo⟩

/-- The files that are loaded after a crash, `w` being the size of a unit: files that were there,
of the right length, with all that had been forced in them. -/
structure Left {U : Type} (w : ℕ) (q d : MapedFileQueue (List U)) : Prop where
  size : d.mapedFileSize = q.mapedFileSize
  from_file : ∀ g ∈ d.mapedFiles, ∃ f ∈ q.mapedFiles, g.fileFromOffset = f.fileFromOffset ∧
    g.mappedByteBuffer.length = f.mappedByteBuffer.length ∧
    g.mappedByteBuffer.take (f.forced / w) = f.mappedByteBuffer.take (f.forced / w)
  forced : ∀ f ∈ q.mapedFiles, 0 < f.forced →
    ∃ g ∈ d.mapedFiles, g.fileFromOffset = f.fileFromOffset

/-- What is on the disk, as far as transactions are concerned. -/
structure Disk where
  commitLog : MapedFileQueue Bytes
  tranStateTable : Table
  tranRedoLog : MapedFileQueue (List CQUnit)

structure Crash (s : TranStore) (d : Disk) : Prop where
  commitLog : Left 1 s.master.store.commitLog.mapedFileQueue d.commitLog
  tranStateTable : Left TSStoreUnitSize s.master.tranStateTable d.tranStateTable
  tranRedoLog : Left CQStoreUnitSize s.tranRedoLog.mapedFileQueue d.tranRedoLog
  /-- files of another length are not loaded -/
  mapped : ∀ f ∈ d.commitLog.mapedFiles, f.mappedByteBuffer.length = d.commitLog.mapedFileSize

structure Recovery where
  checkCRCOnRecover : Bool
  messageIndexSafe : Bool
  storeCheckpoint : StoreCheckpoint
  dispatch : DispatchEnv
  created : ℤ → Bool

/-- The check recovery makes of a record. -/
def check (cfg : Config) (env : Recovery) : Bytes → DispatchRequest × Bytes :=
  recoverCheck cfg.store (some cfg.store.scheduleMessageService) env.checkCRCOnRecover

structure Recovered where
  commitLog : MapedFileQueue Bytes
  transactionStateService : TransactionStateService

/-- `load` and `recover` after an abnormal exit. The requests of the messages that were found are
dispatched before the state table is looked at. -/
def recover (cfg : Config) (env : Recovery) (d : Disk) : Option Recovered := do
  let (log, _, requests) ← recoverAbnormally (check cfg env)
    (recoverTimestamp env.messageIndexSafe env.storeCheckpoint) (reload d.commitLog)
  let table := requests.foldl (fun q req => dispatchTransaction env.dispatch req q)
    (reload d.tranStateTable)
  let service ← recoverStateTable false log env.created
    ⟨table, 0, ⟨reload d.tranRedoLog, -1, 0⟩⟩
  return ⟨log, service⟩

/-! ### What is to survive -/

/-- The messages of the valid log, from its first file to what cannot be read. -/
def validMessages (check : Bytes → DispatchRequest × Bytes) (q : MapedFileQueue Bytes) :
    List DispatchRequest :=
  ((scanFiles check q.mapedFiles).map Prod.snd).getD []

def ends (o : Int64) (d : DispatchRequest) : Bool :=
  (getTransactionValue d.sysFlag = TransactionCommitType ||
    getTransactionValue d.sysFlag = TransactionRollbackType) && d.preparedTransactionOffset = o

/-- The offsets of the prepared messages that no message commits or rolls back. -/
def pendingOffsets (check : Bytes → DispatchRequest × Bytes) (q : MapedFileQueue Bytes) :
    List Int64 :=
  let messages := validMessages check q
  ((messages.filter fun d => getTransactionValue d.sysFlag = TransactionPreparedType).map
    DispatchRequest.commitLogOffset).filter fun o => !messages.any (ends o)

def preparedRows (q : Table) : List Row :=
  (units TSStoreUnitSize q).filter fun row => row.state = TransactionPreparedType

/-- The answer to a check of the timer passes the checks of the processor: it comes from a producer
of the group the check is sent to, and the offsets are echoed. -/
def Accepted (log : MapedFileQueue Bytes) (c : Check) : Prop :=
  ∃ msgExt group, lookMessageByOffset log c.commitLogOffset = .ok (some msgExt) ∧
    msgExt.getProperty PROPERTY_PRODUCER_GROUP = some group ∧
    hashCode group = c.producerGroupHashCode ∧
    ∀ commitOrRollback, checkRequest ⟨group, Int64.ofNat c.tranStateTableOffset,
      c.commitLogOffset, commitOrRollback, true⟩ msgExt = .ok none

/-- **The pending transactions survived**: the prepared rows are those of the pending messages, one
for each, and the answers to the checks of the timer are accepted. -/
structure Rebuilt (check : Bytes → DispatchRequest × Bytes) (d : Disk) (r : Recovered) : Prop where
  rows : ((preparedRows r.transactionStateService.tranStateTable).map Row.clOffset).Perm
    (pendingOffsets check d.commitLog)
  accepted : ∀ f ∈ r.transactionStateService.tranStateTable.mapedFiles,
    ∀ now atleastInterval, ∀ c ∈ checkFile now atleastInterval f, Accepted r.commitLog c

/-! ### The redo log stays empty -/

section Empty

variable {cfg : Config} {s s' : TranStore} {d : Disk} {env : Recovery}

def NoEntries (s : TranStore) : Prop := s.tranRedoLog.mapedFileQueue.mapedFiles = []

lemma noEntries_step {a : MasterStore.Action} (h : NoEntries s) (hs : step cfg s a = some s') :
    NoEntries s' := by
  obtain ⟨master, -, rfl⟩ := Option.map_eq_some_iff.mp hs
  unfold NoEntries at h ⊢
  cases a with
  | put env m => exact h
  | dispatch env => exact h
  | restart checkCRCOnRecover order =>
    change (reload s.tranRedoLog.mapedFileQueue).mapedFiles = []
    rw [mapedFiles_reload, h, List.map_nil]

lemma Crash.noEntries (hc : Crash s d) (h : NoEntries s) : d.tranRedoLog.mapedFiles = [] := by
  refine List.eq_nil_iff_forall_not_mem.mpr fun g hg => ?_
  obtain ⟨f, hf, -⟩ := hc.tranRedoLog.from_file g hg
  rw [h] at hf
  exact List.not_mem_nil hf

lemma getIndexBuffer_nil {cq : ConsumeQueue} (h : cq.mapedFileQueue.mapedFiles = [])
    (startIndex : ℕ) : getIndexBuffer cq startIndex = none := by
  simp [getIndexBuffer, MapedFileQueue.findMapedFileByOffset, h]

/-- From an empty redo log an empty table is made. -/
lemma recoverStateTable_nil {log : MapedFileQueue Bytes} {created : ℤ → Bool}
    {service : TransactionStateService}
    (h : service.tranRedoLog.mapedFileQueue.mapedFiles = []) :
    recoverStateTable false log created service = some
      { service with tranStateTable :=
          Chain.empty service.tranStateTable.mapedFileSize service.tranStateTable.size_pos } := by
  simp [recoverStateTable, recreateStateTable, scanRedoLog, getIndexBuffer_nil h, appendRows,
    TreeMap.keys, destroy]

/-! ### Recovery comes to its end -/

lemma matchedIndex_isSome (timestamp : Int64) {files : List (MapedFile Bytes)}
    (h : ∀ f ∈ files, MessageStoreTimestampPostion + 8 ≤ f.mappedByteBuffer.length) :
    ∃ index, matchedIndex timestamp files = some index := by
  induction files with
  | nil => exact ⟨0, rfl⟩
  | cons f files ih =>
    obtain ⟨b, hb⟩ := isMapedFileMatchedRecover_isSome timestamp (h f List.mem_cons_self)
    rw [matchedIndex, hb]
    cases b with
    | true => exact ⟨_, rfl⟩
    | false => exact ih fun g hg => h g (List.mem_cons_of_mem f hg)

variable (cfg env) in
lemma recoverAbnormally_isSome (timestamp : Int64) {q : MapedFileQueue Bytes}
    (h : ∀ f ∈ q.mapedFiles, MessageStoreTimestampPostion + 8 ≤ f.mappedByteBuffer.length) :
    ∃ r, recoverAbnormally (check cfg env) timestamp q = some r := by
  rw [recoverAbnormally]
  split_ifs
  · exact ⟨_, rfl⟩
  · obtain ⟨index, hindex⟩ : ∃ index, matchedIndex timestamp q.mapedFiles.reverse = some index :=
      matchedIndex_isSome timestamp fun f hf => h f (List.mem_reverse.mp hf)
    obtain ⟨p, hp⟩ := @scanFiles_total (check cfg env) (fun b => recoverCheck_lt b)
      (q.mapedFiles.drop index)
    rw [hindex]
    simp only [Option.bind_eq_bind, Option.bind_some, hp]
    exact ⟨_, rfl⟩

variable (cfg env) in
/-- **A recovery.** It comes to its end, with a table that has no row. -/
lemma recover_nil (hredo : d.tranRedoLog.mapedFiles = [])
    (hlog : ∀ f ∈ d.commitLog.mapedFiles,
      MessageStoreTimestampPostion + 8 ≤ f.mappedByteBuffer.length) :
    ∃ r, recover cfg env d = some r ∧
      r.transactionStateService.tranStateTable.mapedFiles = [] := by
  have hreload : ∀ f ∈ (reload d.commitLog).mapedFiles,
      MessageStoreTimestampPostion + 8 ≤ f.mappedByteBuffer.length := by
    intro f hf
    rw [mapedFiles_reload] at hf
    obtain ⟨g, hg, rfl⟩ := List.mem_map.mp hf
    exact hlog g hg
  obtain ⟨r, hr⟩ := recoverAbnormally_isSome cfg env
    (recoverTimestamp env.messageIndexSafe env.storeCheckpoint) hreload
  have hnil : (reload d.tranRedoLog).mapedFiles = [] := by
    rw [mapedFiles_reload, hredo, List.map_nil]
  rw [recover, hr]
  simp only [Option.bind_eq_bind, Option.bind_some]
  rw [recoverStateTable_nil hnil]
  exact ⟨_, rfl, rfl⟩

/-- A table without rows is the right one if and only if no message is pending. -/
lemma rebuilt_iff {r : Recovered}
    (hnil : r.transactionStateService.tranStateTable.mapedFiles = []) :
    Rebuilt (check cfg env) d r ↔ pendingOffsets (check cfg env) d.commitLog = [] := by
  have hrows : preparedRows r.transactionStateService.tranStateTable = [] := by
    rw [preparedRows, units, hnil, List.flatMap_nil, List.filter_nil]
  constructor
  · intro h
    have hperm := h.rows
    rw [hrows, List.map_nil] at hperm
    exact hperm.nil_eq.symm
  · intro h
    refine ⟨?_, ?_⟩
    · rw [hrows, h, List.map_nil]
    · intro f hf
      rw [hnil] at hf
      exact absurd hf List.not_mem_nil

end Empty

/-- **What survives of the pending transactions.** After every run and every crash, recovery ends,
and the table it makes is the right one if and only if no message of the valid log is pending. -/
theorem pending_survive {cfg : Config} {size tableSize redoSize : ℕ} {hsize : 0 < size}
    {htable : 0 < tableSize} {hredo : 0 < redoSize} {as : List MasterStore.Action}
    {s : TranStore} {d : Disk} {env : Recovery}
    (hr : run (step cfg) (newStore hsize htable hredo) as = some s) (hc : Crash s d)
    (hfile : MessageStoreTimestampPostion + 8 ≤ d.commitLog.mapedFileSize) :
    ∃ r, recover cfg env d = some r ∧
      (Rebuilt (check cfg env) d r ↔ pendingOffsets (check cfg env) d.commitLog = []) := by
  have hnew : NoEntries (newStore hsize htable hredo) := rfl
  have hnone : NoEntries s := run_inductive (fun _ _ _ => noEntries_step) hnew hr
  obtain ⟨r, hrec, hnil⟩ := recover_nil cfg env (hc.noEntries hnone)
    fun f hf => hfile.trans_eq (hc.mapped f hf).symm
  exact ⟨r, hrec, rebuilt_iff hnil⟩

/-! ### One prepared message -/

def testStore : TranStore := newStore Chain.pos_1024 pos_2400 pos_2000

/-- A message of a group, as a producer sends it. -/
def groupMessage (sysFlag : Int32) : MessageExtBrokerInner :=
  { preparedMessage groupProperty with
    sysFlag := sysFlag
    propertiesString := some (messageProperties2String zeroEnv.entryOrder groupProperty) }

def preparedRun : List MasterStore.Action :=
  [.put zeroEnv (groupMessage TransactionPreparedType), .dispatch allFiles]

/-- The message at offset 0, the first row of the table, is committed. -/
def committedRun : List MasterStore.Action :=
  preparedRun ++ [.put zeroEnv (groupMessage TransactionCommitType), .dispatch allFiles]

/-- Everything that was written is on the disk. -/
def diskOf (s : TranStore) : Disk :=
  ⟨reload s.master.store.commitLog.mapedFileQueue, reload s.master.tranStateTable,
    reload s.tranRedoLog.mapedFileQueue⟩

lemma left_reload {U : Type} (w : ℕ) (q : MapedFileQueue (List U)) : Left w q (reload q) := by
  refine ⟨rfl, fun g hg => ?_, fun f hf _ => ?_⟩
  · rw [mapedFiles_reload] at hg
    obtain ⟨f, hf, rfl⟩ := List.mem_map.mp hg
    exact ⟨f, hf, rfl, rfl, rfl⟩
  · rw [mapedFiles_reload]
    exact ⟨MapedFileQueue.loadFile q.mapedFileSize f.fileFromOffset f.mappedByteBuffer,
      List.mem_map.mpr ⟨f, hf, rfl⟩, rfl⟩

lemma crash_diskOf {s : TranStore}
    (h : ∀ f ∈ s.master.store.commitLog.mapedFileQueue.mapedFiles,
      f.mappedByteBuffer.length = s.master.store.commitLog.mapedFileQueue.mapedFileSize) :
    Crash s (diskOf s) := by
  refine ⟨left_reload _ _, left_reload _ _, left_reload _ _, fun g hg => ?_⟩
  change g ∈ (reload s.master.store.commitLog.mapedFileQueue).mapedFiles at hg
  rw [mapedFiles_reload] at hg
  obtain ⟨f, hf, rfl⟩ := List.mem_map.mp hg
  exact h f hf

def testRecovery : Recovery := ⟨true, false, ⟨0, 0, 0⟩, allFiles, fun _ => true⟩

/-- Everything was dispatched, the message is pending, and no row is left for it. -/
theorem pending_survive_prepared :
    ∃ s r, run (step testConfig) testStore preparedRun = some s ∧ s.master.requests.length = 0 ∧
      Crash s (diskOf s) ∧ recover testConfig testRecovery (diskOf s) = some r ∧
      ¬ Rebuilt (check testConfig testRecovery) (diskOf s) r := by
  have hrun : (run (step testConfig) testStore preparedRun).bind (fun s =>
      (recover testConfig testRecovery (diskOf s)).map fun r =>
        (s.master.requests.length,
          decide (∀ f ∈ s.master.store.commitLog.mapedFileQueue.mapedFiles,
            f.mappedByteBuffer.length = s.master.store.commitLog.mapedFileQueue.mapedFileSize),
          (preparedRows r.transactionStateService.tranStateTable).length,
          pendingOffsets (check testConfig testRecovery) (diskOf s).commitLog)) =
      some (0, true, 0, [0]) := by
    decide +kernel
  obtain ⟨s, hs, hrec⟩ := Option.bind_eq_some_iff.mp hrun
  obtain ⟨r, hr, heq⟩ := Option.map_eq_some_iff.mp hrec
  simp only [Prod.mk.injEq, decide_eq_true_eq] at heq
  obtain ⟨hreq, hmapped, hrows, hpending⟩ := heq
  refine ⟨s, r, hs, hreq, crash_diskOf hmapped, hr, fun hrebuilt => ?_⟩
  have hlen := hrebuilt.rows.length_eq
  rw [List.length_map, hrows, hpending] at hlen
  exact absurd hlen (by decide)

/-- The message was committed: nothing is pending. -/
theorem pending_survive_committed :
    ∃ s r, run (step testConfig) testStore committedRun = some s ∧
      recover testConfig testRecovery (diskOf s) = some r ∧
      (validMessages (check testConfig testRecovery) (diskOf s).commitLog).length = 2 ∧
      Rebuilt (check testConfig testRecovery) (diskOf s) r := by
  have hrun : (run (step testConfig) testStore committedRun).map (fun s =>
      (decide (∀ f ∈ s.master.store.commitLog.mapedFileQueue.mapedFiles,
          f.mappedByteBuffer.length = s.master.store.commitLog.mapedFileQueue.mapedFileSize),
        (diskOf s).commitLog.mapedFileSize,
        (validMessages (check testConfig testRecovery) (diskOf s).commitLog).length,
        pendingOffsets (check testConfig testRecovery) (diskOf s).commitLog)) =
      some (true, 1024, 2, []) := by
    decide +kernel
  obtain ⟨s, hs, heq⟩ := Option.map_eq_some_iff.mp hrun
  simp only [Prod.mk.injEq, decide_eq_true_eq] at heq
  obtain ⟨hmapped, hsize, hmessages, hpending⟩ := heq
  obtain ⟨r, hr, hiff⟩ : ∃ r, recover testConfig testRecovery (diskOf s) = some r ∧
      (Rebuilt (check testConfig testRecovery) (diskOf s) r ↔
        pendingOffsets (check testConfig testRecovery) (diskOf s).commitLog = []) :=
    pending_survive hs (crash_diskOf hmapped) (by rw [hsize]; decide)
  exact ⟨s, r, hs, hr, hmessages, hiff.mpr hpending⟩

end CloudMQ.StateTableRebuild
