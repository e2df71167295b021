import CloudMQ.Message
import CloudMQ.Runs

/-!
The message index: `IndexFile`, `IndexService`, and how `CommitLog.recoverAbnormally` replays.

The dispatch service hands the requests over in batches. One thread takes a batch at a time and
puts an entry for every key of its messages, making a new file when the last one is full. What
recovery dispatches again and the last file already covers is left out, by the offset of the last
entry put.

A start after a normal shutdown loads the files and forgets what was waiting. A start after a crash
destroys the files that end later than the checkpoint says, and replays the log from the last
segment that begins no later.

The log is the list of the requests its records yield. Which records and which files a crash
leaves, in which order the names of the files come, what the other services wrote to the
checkpoint and whether a file can be created comes with the step.
-/

namespace CloudMQ.IndexService

open CloudMQ.Utf8 CloudMQ.Strings CloudMQ.Message CloudMQ.Runs

/-! ### Files -/

structure IndexUnit where
  keyHash : Int32
  phyOffset : Int64
  timeDiff : Int32
  slotValue : ℕ
  deriving DecidableEq, Repr

structure IndexFile where
  /-- the number of the last entry in a slot -/
  slots : ℕ → ℕ
  indexes : List IndexUnit
  beginTimestamp : Int64
  endTimestamp : Int64
  beginPhyOffset : Int64
  endPhyOffset : Int64

structure Config where
  hashSlotNum : ℕ
  indexNum : ℕ
  mapedFileSizeCommitLog : ℕ

namespace IndexFile

/-- Both header fields keep their zeros unless the file before had something in them. -/
def newFile (endPhyOffset endTimestamp : Int64) : IndexFile where
  slots := fun _ => 0
  indexes := []
  beginTimestamp := if 0 < endTimestamp then endTimestamp else 0
  endTimestamp := if 0 < endTimestamp then endTimestamp else 0
  beginPhyOffset := if 0 < endPhyOffset then endPhyOffset else 0
  endPhyOffset := if 0 < endPhyOffset then endPhyOffset else 0

/-- The first index is an invalid one. -/
def indexCount (f : IndexFile) : ℕ := f.indexes.length + 1

def isWriteFull (cfg : Config) (f : IndexFile) : Bool := cfg.indexNum ≤ f.indexCount

/-- The absolute value; that of the least number is negative again. -/
def indexKeyHashMethod (key : Text) : Int32 :=
  let keyHash := hashCode key
  let keyHashPositive := if keyHash < 0 then -keyHash else keyHash
  if keyHashPositive < 0 then 0 else keyHashPositive

/-- In seconds, from the begin of the file. -/
def timeDiff (beginTimestamp storeTimestamp : Int64) : Int32 :=
  let timeDiff := (storeTimestamp - beginTimestamp) / 1000
  if beginTimestamp ≤ 0 then 0
  else if Int32.maxValue.toInt64 < timeDiff then Int32.maxValue
  else if timeDiff < 0 then 0
  else timeDiff.toInt32

/-- `none` when the file is full. -/
def putKey (cfg : Config) (key : Text) (phyOffset storeTimestamp : Int64) (f : IndexFile) :
    Option IndexFile :=
  if f.indexCount < cfg.indexNum then
    let keyHash := indexKeyHashMethod key
    let slotPos := keyHash.toInt.toNat % cfg.hashSlotNum
    let slotValue := if f.indexCount < f.slots slotPos then 0 else f.slots slotPos
    some {
      slots := Function.update f.slots slotPos f.indexCount
      indexes := f.indexes ++
        [⟨keyHash, phyOffset, timeDiff f.beginTimestamp storeTimestamp, slotValue⟩]
      beginTimestamp := if f.indexCount ≤ 1 then storeTimestamp else f.beginTimestamp
      endTimestamp := storeTimestamp
      beginPhyOffset := if f.indexCount ≤ 1 then phyOffset else f.beginPhyOffset
      endPhyOffset := phyOffset }
  else none

end IndexFile

/-! ### Keys -/

def KEY_SEPARATOR : Char := ' '

def buildKey (topic key : Text) : Text := topic ++ '#' :: key

/-- Commits and rollbacks are not indexed. -/
def isIndexed (m : DispatchRequest) : Bool :=
  getTransactionValue m.sysFlag == TransactionNotType ||
    getTransactionValue m.sysFlag == TransactionPreparedType

/-- The keys that are put for a message. -/
def keyset (m : DispatchRequest) : List Text :=
  match m.keys with
  | none => []
  | some keys => if keys = [] then [] else (split KEY_SEPARATOR keys).filter (· ≠ [])

def indexKeys (m : DispatchRequest) : List Text := if isIndexed m then keyset m else []

/-- The loops of `buildIndex`: what is put for a batch, when the last file ended at the given
offset as the batch was taken. -/
def puts (endPhyOffset : Int64) (req : List DispatchRequest) : List (DispatchRequest × Text) :=
  req.flatMap fun msg =>
    if msg.commitLogOffset < endPhyOffset then [] else (indexKeys msg).map fun key => (msg, key)

/-! ### The state -/

structure IndexStore where
  /-- the retained records of the commit log -/
  log : List DispatchRequest
  /-- where the log begins and ends -/
  minOffset : ℤ
  maxOffset : ℤ
  /-- requests that wait in the dispatch service -/
  requests : List DispatchRequest
  requestQueue : List (List DispatchRequest)
  /-- what the thread has still to put for the batch it took -/
  building : List (DispatchRequest × Text)
  indexFileList : List IndexFile
  /-- full files whose flush threads run -/
  flushing : List IndexFile
  indexMsgTimestamp : Int64

def requestQueueCapacity : ℕ := 300000

/-- `deleteExpiredFile`: files go from the head, as far as they can be destroyed; the last one
stays. -/
def deleteExpiredFile (offset : ℤ) (destroys : IndexFile → Bool) (files : List IndexFile) :
    List IndexFile :=
  files.drop ((files.dropLast.takeWhile fun f => decide (f.endPhyOffset.toInt < offset)).takeWhile
    destroys).length

/-- What `load` keeps after a crash. -/
def retained (indexMsgTimestamp : Int64) (files : List IndexFile) : List IndexFile :=
  files.filter fun f => ¬ indexMsgTimestamp < f.endTimestamp

/-- `isMapedFileMatchedRecover`, for the segment that begins with the record. -/
def isMapedFileMatchedRecover (cfg : Config) (minTimestampIndex : Int64) (m : DispatchRequest) :
    Bool :=
  decide (m.commitLogOffset.toInt % cfg.mapedFileSizeCommitLog = 0) && m.storeTimestamp != 0 &&
    decide (m.storeTimestamp ≤ minTimestampIndex)

/-- Where `recoverAbnormally` begins: with the last segment that matches, or with the first. -/
def recoverFrom (cfg : Config) (minTimestampIndex : Int64) (log : List DispatchRequest) :
    Option Int64 :=
  (log.filter (isMapedFileMatchedRecover cfg minTimestampIndex)).getLast?.map
    DispatchRequest.commitLogOffset

/-- The requests it dispatches. -/
def replayed (cfg : Config) (minTimestampIndex : Int64) (log : List DispatchRequest) :
    List DispatchRequest :=
  match recoverFrom cfg minTimestampIndex log with
  | none => log
  | some start => log.filter fun m => start ≤ m.commitLogOffset

/-- `StoreCheckpoint.getMinTimestampIndex`; `minTimestamp` is what the other services wrote. -/
def getMinTimestampIndex (minTimestamp indexMsgTimestamp : Int64) : Int64 :=
  if indexMsgTimestamp < minTimestamp then indexMsgTimestamp else minTimestamp

/-- The end of a record. -/
def recordEnd (m : DispatchRequest) : ℤ := m.commitLogOffset.toInt + m.msgSize.toInt

/-- The records that end at or before an offset. -/
def cutLog (maxOffset : ℤ) (log : List DispatchRequest) : List DispatchRequest :=
  log.filter fun m => decide (recordEnd m ≤ maxOffset)

/-- Where the log goes on behind its records. -/
def logEnd (minOffset : ℤ) (log : List DispatchRequest) : ℤ :=
  (log.getLast?.map recordEnd).getD minOffset

namespace IndexStore

/-- The last file is full, or there is none. -/
def needsFile (cfg : Config) (s : IndexStore) : Bool :=
  s.indexFileList.getLast?.all (·.isWriteFull cfg)

/-- `getAndCreateLastIndexFile`, where it creates a file. The file before is flushed. -/
def rollFile (s : IndexStore) : IndexStore :=
  match s.indexFileList.getLast? with
  | none => { s with indexFileList := [IndexFile.newFile 0 0] }
  | some f => { s with
      indexFileList := s.indexFileList ++ [IndexFile.newFile f.endPhyOffset f.endTimestamp]
      flushing := s.flushing ++ [f] }

/-- The offset the last file ends at. -/
def lastEnd (s : IndexStore) : Int64 := (s.indexFileList.getLast?.map IndexFile.endPhyOffset).getD 0

end IndexStore

inductive Action
  /-- a record is appended to the log and its request is dispatched -/
  | put (m : DispatchRequest)
  /-- the dispatch service hands its first `n` requests over -/
  | putRequest (n : ℕ)
  /-- the thread takes a batch; `created` says whether a file can be created -/
  | poll (created : Bool)
  /-- the thread puts a key, or makes a file when the last one is full -/
  | putKey (created : Bool)
  /-- the `i`-th flush thread comes to its end -/
  | flush (i : ℕ)
  /-- files of the log are deleted at the head -/
  | deleteLog (offset : ℤ)
  | deleteExpiredFile (destroys : IndexFile → Bool)
  /-- a normal shutdown and the start after it; `loaded` are the files by their names -/
  | restart (loaded : List IndexFile)
  /-- a crash and the start after it; `disk` are the files that are found, and the log is lost
  from `maxOffset` on -/
  | crash (disk : List IndexFile) (maxOffset : ℤ) (minTimestamp : Int64)

def step (cfg : Config) (s : IndexStore) : Action → Option IndexStore
  | .put m =>
    if s.maxOffset ≤ m.commitLogOffset.toInt ∧ 0 < m.msgSize.toInt then
      some { s with log := s.log ++ [m], maxOffset := recordEnd m, requests := s.requests ++ [m] }
    else none
  | .putRequest n =>
    let s' := { s with requests := s.requests.drop n }
    -- a request that finds the queue full is dropped
    if s.requestQueue.length < requestQueueCapacity then
      some { s' with requestQueue := s.requestQueue ++ [s.requests.take n] }
    else some s'
  | .poll created =>
    match s.building, s.requestQueue with
    | [], req :: reqs =>
      let s := { s with requestQueue := reqs }
      if s.needsFile cfg then
        if created then some { s.rollFile with building := puts s.rollFile.lastEnd req }
        else some s
      else some { s with building := puts s.lastEnd req }
    | _, _ => none
  | .putKey created =>
    match s.building, s.indexFileList.getLast? with
    | (msg, key) :: rest, some f =>
      match f.putKey cfg (buildKey msg.topic key) msg.commitLogOffset msg.storeTimestamp with
      | some f' =>
        some { s with indexFileList := s.indexFileList.dropLast ++ [f'], building := rest }
      | none => if created then some s.rollFile else some { s with building := [] }
    | _, _ => none
  | .flush i =>
    match s.flushing[i]? with
    | none => none
    | some f =>
      let indexMsgTimestamp := if f.isWriteFull cfg then f.endTimestamp else 0
      some { s with
        flushing := s.flushing.eraseIdx i
        indexMsgTimestamp :=
          if 0 < indexMsgTimestamp then indexMsgTimestamp else s.indexMsgTimestamp }
  | .deleteLog offset =>
    if s.minOffset ≤ offset ∧ offset ≤ s.maxOffset then
      some { s with log := s.log.filter fun m => decide (offset ≤ m.commitLogOffset.toInt)
                    minOffset := offset }
    else none
  | .deleteExpiredFile destroys =>
    some { s with indexFileList := deleteExpiredFile s.minOffset destroys s.indexFileList }
  | .restart loaded =>
    -- the dispatch service hands over what it has, and the thread ends its batch
    if s.requests = [] ∧ s.building = [] then
      some { s with indexFileList := loaded, requestQueue := [], flushing := [] }
    else none
  | .crash disk maxOffset minTimestamp =>
    let log := cutLog maxOffset s.log
    some { s with
      log := log
      maxOffset := logEnd s.minOffset log
      requests := replayed cfg (getMinTimestampIndex minTimestamp s.indexMsgTimestamp) log
      requestQueue := []
      building := []
      indexFileList := retained s.indexMsgTimestamp disk
      flushing := [] }

/-- A new store. -/
def newStore : IndexStore := ⟨[], 0, 0, [], [], [], [], [], 0⟩

end CloudMQ.IndexService
