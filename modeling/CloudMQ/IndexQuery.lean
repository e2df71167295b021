import CloudMQ.HashChain
import CloudMQ.IndexCompleteness

/-!
Queries of the message index: `IndexFile.selectPhyOffset`, `IndexService.queryOffset`, and the files
that calls of `buildIndex` leave.

An entry keeps the whole seconds since its file began. The header of a new file begins with the time
the file before ended at; the first entry counts from there, and then the header takes the time of
the first entry. So the entry is read with a time that is too late, unless its file is the first
one, whose header begins with zero. All other entries are read within the second before the
message.

`none` stands for a loop that does not end within the fuel. The files are not being destroyed, and
every file that is needed can be created.
-/

namespace CloudMQ.IndexQuery

open CloudMQ.Utf8 CloudMQ.Strings CloudMQ.Message CloudMQ.IndexService
open CloudMQ.IndexCompleteness (entries)
open CloudMQ.HashChain

/-! ### The query -/

/-- What is read at a number of the file: the entry, or the zeros behind the last one, or an
exception behind the end of the file. -/
def readIndex (cfg : Config) (f : IndexFile) (index : ℕ) : Option IndexUnit :=
  if index < cfg.indexNum then
    match index with
    | 0 => some ⟨0, 0, 0, 0⟩
    | i + 1 => some (f.indexes[i]?.getD ⟨0, 0, 0, 0⟩)
  else none

def timeRead (f : IndexFile) (u : IndexUnit) : Int64 :=
  f.beginTimestamp + u.timeDiff.toInt64 * 1000

/-- The entry is a hit. -/
def isHit (f : IndexFile) (keyHash : Int32) (beginTime endTime : Int64) (u : IndexUnit) : Bool :=
  decide (keyHash = u.keyHash) && decide (beginTime ≤ timeRead f u) &&
    decide (timeRead f u ≤ endTime)

def isTimeMatched (f : IndexFile) (beginTime endTime : Int64) : Bool :=
  decide (beginTime < f.beginTimestamp ∧ f.endTimestamp < endTime) ||
    decide (f.beginTimestamp ≤ beginTime ∧ beginTime ≤ f.endTimestamp) ||
    decide (f.beginTimestamp ≤ endTime ∧ endTime ≤ f.endTimestamp)

/-- The loop of `selectPhyOffset`. An exception is logged, and what was found so far stays. -/
def selectLoop (cfg : Config) (f : IndexFile) (keyHash maxNum : Int32)
    (beginTime endTime : Int64) : ℕ → ℕ → List Int64 → Option (List Int64)
  | 0, _, _ => none
  | fuel + 1, nextIndexToRead, phyOffsets =>
    if maxNum.toInt ≤ phyOffsets.length then some phyOffsets
    else
      match readIndex cfg f nextIndexToRead with
      | none => some phyOffsets
      | some u =>
        if u.timeDiff < 0 then some phyOffsets
        else
          let phyOffsets :=
            if isHit f keyHash beginTime endTime u then phyOffsets ++ [u.phyOffset] else phyOffsets
          if u.slotValue = 0 ∨ f.indexCount < u.slotValue ∨ u.slotValue = nextIndexToRead ∨
              timeRead f u < beginTime then some phyOffsets
          else selectLoop cfg f keyHash maxNum beginTime endTime fuel u.slotValue phyOffsets

def slotPos (cfg : Config) (keyHash : Int32) : ℕ := keyHash.toInt.toNat % cfg.hashSlotNum

def selectPhyOffset (cfg : Config) (f : IndexFile) (fuel : ℕ) (phyOffsets : List Int64)
    (key : Text) (maxNum : Int32) (beginTime endTime : Int64) : Option (List Int64) :=
  let keyHash := IndexFile.indexKeyHashMethod key
  let slotValue := f.slots (slotPos cfg keyHash)
  if slotValue = 0 ∨ f.indexCount < slotValue ∨ f.indexCount ≤ 1 then some phyOffsets
  else selectLoop cfg f keyHash maxNum beginTime endTime fuel slotValue phyOffsets

structure QueryOffsetResult where
  phyOffsets : List Int64
  indexLastUpdateTimestamp : Int64
  indexLastUpdatePhyoffset : Int64
  deriving DecidableEq, Repr

/-- A file that does not match the times is not searched. -/
def selectMatched (cfg : Config) (f : IndexFile) (fuel : ℕ) (phyOffsets : List Int64) (key : Text)
    (maxNum : Int32) (beginTime endTime : Int64) : Option (List Int64) :=
  if isTimeMatched f beginTime endTime then
    selectPhyOffset cfg f fuel phyOffsets key maxNum beginTime endTime
  else some phyOffsets

/-- The loop of `queryOffset`, over the files from the last one. -/
def queryLoop (cfg : Config) (fuel : ℕ) (key : Text) (maxNum : Int32) (beginTime endTime : Int64) :
    List IndexFile → List Int64 → Option (List Int64)
  | [], phyOffsets => some phyOffsets
  | f :: fs, phyOffsets => do
    let phyOffsets ← selectMatched cfg f fuel phyOffsets key maxNum beginTime endTime
    if f.beginTimestamp < beginTime then some phyOffsets
    else if maxNum.toInt ≤ phyOffsets.length then some phyOffsets
    else queryLoop cfg fuel key maxNum beginTime endTime fs phyOffsets

/-- An `ArrayList` of a negative capacity cannot be made. -/
def queryOffset (cfg : Config) (maxMsgsNumBatch : Int32) (fuel : ℕ) (files : List IndexFile)
    (topic key : Text) (maxNum : Int32) (beginTime endTime : Int64) :
    Option (Except Unit QueryOffsetResult) :=
  if maxNum < 0 then some (.error ())
  else do
    let phyOffsets ← queryLoop cfg fuel (buildKey topic key) (min maxNum maxMsgsNumBatch) beginTime
      endTime files.reverse []
    return .ok ⟨phyOffsets, (files.getLast?.map IndexFile.endTimestamp).getD 0,
      (files.getLast?.map IndexFile.endPhyOffset).getD 0⟩

/-! ### The builds -/

def getAndCreateLastIndexFile (cfg : Config) (files : List IndexFile) : List IndexFile :=
  match files.getLast? with
  | none => [IndexFile.newFile 0 0]
  | some f =>
    if f.isWriteFull cfg then files ++ [IndexFile.newFile f.endPhyOffset f.endTimestamp] else files

/-- The loop that puts a key: until a file takes it. -/
def putLoop (cfg : Config) : ℕ → List IndexFile → DispatchRequest × Text → Option (List IndexFile)
  | 0, _, _ => none
  | fuel + 1, files, p =>
    match files.getLast?.bind
        (IndexFile.putKey cfg (buildKey p.1.topic p.2) p.1.commitLogOffset p.1.storeTimestamp) with
    | some f => some (files.dropLast ++ [f])
    | none => putLoop cfg fuel (getAndCreateLastIndexFile cfg files) p

def buildIndex (cfg : Config) (fuel : ℕ) (files : List IndexFile) (req : List DispatchRequest) :
    Option (List IndexFile) :=
  let files := getAndCreateLastIndexFile cfg files
  let endPhyOffset := (files.getLast?.map IndexFile.endPhyOffset).getD 0
  (puts endPhyOffset req).foldlM (putLoop cfg fuel) files

/-- A sequence of calls, from no files. -/
def buildIndexes (cfg : Config) (fuel : ℕ) (reqs : List (List DispatchRequest)) :
    Option (List IndexFile) :=
  reqs.foldlM (buildIndex cfg fuel) []

end CloudMQ.IndexQuery
