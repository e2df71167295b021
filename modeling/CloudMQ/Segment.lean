import Mathlib.Tactic

/-!
Segment files and queues of segment files: `MapedFile` and `MapedFileQueue`.

A queue is a list of files of one size; file names are start offsets. The mapped memory is a
parameter: bytes for the commit log, index units for a consume queue. What the operating system
decides is an argument of the operation: whether a file can be created, whether destroying it
succeeds, when it was last modified.
-/

namespace CloudMQ.Segment

structure MapedFile (Mem : Type) where
  fileFromOffset : ℕ
  mappedByteBuffer : Mem
  wrotePostion : ℕ := 0
  committedPosition : ℕ := 0
  storeTimestamp : Int64 := 0
  /-- not yet shut down: `hold()` succeeds -/
  available : Bool := true
  firstCreateInQueue : Bool := false
  /-- the written bytes below this position have been forced to disk -/
  forced : ℕ := 0

structure MapedFileQueue (Mem : Type) where
  mapedFileSize : ℕ
  size_pos : 0 < mapedFileSize
  mapedFiles : List (MapedFile Mem)
  committedWhere : ℕ
  storeTimestamp : Int64

def OS_PAGE_SIZE : ℕ := 1024 * 4
def DeleteFilesBatchMax : ℕ := 10

variable {Mem : Type}

namespace MapedFile

variable (size : ℕ) (f : MapedFile Mem)

def isFull : Bool := f.wrotePostion = size

def isAbleToFlush (flushLeastPages : ℤ) : Bool :=
  if f.isFull size then true
  else if 0 < flushLeastPages then
    flushLeastPages ≤ ((f.wrotePostion / OS_PAGE_SIZE : ℕ) : ℤ) -
      ((f.committedPosition / OS_PAGE_SIZE : ℕ) : ℤ)
  else f.committedPosition < f.wrotePostion

/-- `MapedFile.commit`: the whole mapping is forced, unless `hold()` fails. -/
def commit (flushLeastPages : ℤ) : MapedFile Mem :=
  if f.isAbleToFlush size flushLeastPages then
    if f.available then
      { f with committedPosition := f.wrotePostion, forced := max f.forced f.wrotePostion }
    else { f with committedPosition := f.wrotePostion }
  else f

/-- `destroy` shuts the file down, whatever its answer is. -/
def destroyed : MapedFile Mem := { f with available := false }

/-- `appendMessage(byte[])`: `n` bytes that turn the memory into `mem`. -/
def append (n : ℕ) (mem : Mem) : Option (MapedFile Mem) :=
  if f.wrotePostion + n ≤ size then
    some { f with mappedByteBuffer := mem, wrotePostion := f.wrotePostion + n }
  else none

end MapedFile

namespace MapedFileQueue

variable (q : MapedFileQueue Mem)

/-- A file read back from disk counts as written and committed to its end. -/
def loadFile (size fileFromOffset : ℕ) (mem : Mem) : MapedFile Mem :=
  { fileFromOffset := fileFromOffset, mappedByteBuffer := mem, wrotePostion := size,
    committedPosition := size, forced := size }

/-- `load`: the directory by start offset, length and contents, in ascending order. The first
file of another length ends the loading. -/
def load (dir : List (ℕ × ℕ × Mem)) : MapedFileQueue Mem :=
  { q with mapedFiles := q.mapedFiles ++
      (dir.takeWhile fun e => e.2.1 = q.mapedFileSize).map fun e =>
        loadFile q.mapedFileSize e.1 e.2.2 }

/-- Where `getLastMapedFile` creates a file, if it does. -/
def createOffset (startOffset : ℕ) : Option ℕ :=
  match q.mapedFiles.getLast? with
  | none => some (startOffset - startOffset % q.mapedFileSize)
  | some last =>
    if last.isFull q.mapedFileSize then some (last.fileFromOffset + q.mapedFileSize) else none

/-- `getLastMapedFile(startOffset)`: the last file, or a new one behind it when it is full.
`fresh` is the memory of a new file, `none` when it cannot be created. -/
def getLastMapedFile (startOffset : ℕ) (fresh : Option Mem) :
    Option (MapedFile Mem) × MapedFileQueue Mem :=
  match q.createOffset startOffset with
  | none => (q.mapedFiles.getLast?, q)
  | some createOffset =>
    match fresh with
    | none => (none, q)
    | some mem =>
      let file : MapedFile Mem :=
        { fileFromOffset := createOffset, mappedByteBuffer := mem,
          firstCreateInQueue := q.mapedFiles.isEmpty }
      (some file, { q with mapedFiles := q.mapedFiles ++ [file] })

def getMinOffset : ℤ :=
  match q.mapedFiles.head? with
  | some f => f.fileFromOffset
  | none => -1

def getMaxOffset : ℕ :=
  match q.mapedFiles.getLast? with
  | some f => f.fileFromOffset + f.wrotePostion
  | none => 0

/-- What `truncateDirtyFiles` does to one file: it stays, is cut, or is removed. -/
def truncateFile (offset : ℕ) (f : MapedFile Mem) : Option (MapedFile Mem) :=
  if offset < f.fileFromOffset + q.mapedFileSize then
    if f.fileFromOffset ≤ offset then
      some { f with wrotePostion := offset % q.mapedFileSize,
                    committedPosition := offset % q.mapedFileSize,
                    forced := min f.forced (offset % q.mapedFileSize) }
    else none
  else some f

def truncateDirtyFiles (offset : ℕ) : MapedFileQueue Mem :=
  { q with mapedFiles := q.mapedFiles.filterMap (q.truncateFile offset) }

def deleteLastMapedFile : MapedFileQueue Mem :=
  { q with mapedFiles := q.mapedFiles.dropLast }

/-- The loop of `deleteExpiredFileByTime` over the snapshot, `n` files being deleted so far:
the files that stay. The last file is never looked at. A file that is not expired is passed
over; a file that cannot be destroyed ends the loop. -/
def deleteByTime (expired destroys : MapedFile Mem → Bool) :
    ℕ → List (MapedFile Mem) → List (MapedFile Mem)
  | _, [] => []
  | _, [last] => [last]
  | n, f :: g :: rest =>
    if expired f then
      if destroys f then
        if DeleteFilesBatchMax ≤ n + 1 then g :: rest
        else deleteByTime expired destroys (n + 1) (g :: rest)
      else f.destroyed :: g :: rest
    else f :: deleteByTime expired destroys n (g :: rest)

/-- The clock is read anew for every file; `now` is what it says then. -/
def isExpired (expiredTime : ℤ) (cleanImmediately : Bool) (lastModified now : MapedFile Mem → ℤ)
    (f : MapedFile Mem) : Bool :=
  decide (lastModified f + expiredTime ≤ now f) || cleanImmediately

def deleteExpiredFileByTime (expiredTime : ℤ) (cleanImmediately : Bool)
    (lastModified now : MapedFile Mem → ℤ) (destroys : MapedFile Mem → Bool) :
    MapedFileQueue Mem :=
  let expired := isExpired expiredTime cleanImmediately lastModified now
  { q with mapedFiles := deleteByTime expired destroys 0 q.mapedFiles }

/-- The loop of `deleteExpiredFileByOffset`: a file goes when the offset in its last unit is
below `offset`; the first file that does not go ends the loop. -/
def deleteByOffset (size unitSize : ℕ) (lastUnit : Mem → ℤ) (offset : ℤ)
    (destroys : MapedFile Mem → Bool) : List (MapedFile Mem) → List (MapedFile Mem)
  | [] => []
  | [last] => [last]
  | f :: g :: rest =>
    -- `selectMapedBuffer` at the last unit
    if size - unitSize < f.wrotePostion ∧ unitSize ≤ size ∧ f.available then
      if lastUnit f.mappedByteBuffer < offset then
        if destroys f then deleteByOffset size unitSize lastUnit offset destroys (g :: rest)
        else f.destroyed :: g :: rest
      else f :: g :: rest
    else f :: g :: rest

def deleteExpiredFileByOffset (offset : ℤ) (unitSize : ℕ) (lastUnit : Mem → ℤ)
    (destroys : MapedFile Mem → Bool) : MapedFileQueue Mem :=
  { q with mapedFiles :=
      deleteByOffset q.mapedFileSize unitSize lastUnit offset destroys q.mapedFiles }

/-- `retryDeleteFirstFile`: the first file, when it was shut down but is still there. -/
def retryDeleteFirstFile (destroys : Bool) : MapedFileQueue Mem :=
  match q.mapedFiles with
  | [] => q
  | f :: rest =>
    if !f.available && destroys then { q with mapedFiles := rest } else q

/-- The list index `findMapedFileByOffset` computes. -/
def findIndex (first : MapedFile Mem) (offset : ℕ) : ℤ :=
  ((offset / q.mapedFileSize : ℕ) : ℤ) - ((first.fileFromOffset / q.mapedFileSize : ℕ) : ℤ)

def findMapedFileByOffset (offset : ℕ) (returnFirstOnNotFound : Bool) :
    Option (MapedFile Mem) :=
  match q.mapedFiles with
  | [] => none
  | first :: rest =>
    let index := q.findIndex first offset
    if 0 ≤ index ∧ index < (first :: rest).length then (first :: rest)[index.toNat]?
    else if returnFirstOnNotFound then some first
    else none

/-- The position in the list of the file `commit` works on. -/
def commitIndex : ℕ :=
  match q.mapedFiles with
  | [] => 0
  | first :: rest =>
    let index := q.findIndex first q.committedWhere
    if 0 ≤ index ∧ index < (first :: rest).length then index.toNat else 0

/-- `MapedFileQueue.commit`: the file that `committedWhere` lies in is committed, the first one
when there is none, and `committedWhere` follows the file. -/
def commit (flushLeastPages : ℤ) : MapedFileQueue Mem :=
  match q.mapedFiles[q.commitIndex]? with
  | none => q
  | some f =>
    let f' := f.commit q.mapedFileSize flushLeastPages
    { q with
      mapedFiles := q.mapedFiles.set q.commitIndex f'
      committedWhere := f'.fileFromOffset + f'.committedPosition
      storeTimestamp := if flushLeastPages = 0 then f.storeTimestamp else q.storeTimestamp }

/-- Replace the last file. -/
def setLast (f : MapedFile Mem) : MapedFileQueue Mem :=
  { q with mapedFiles := q.mapedFiles.dropLast ++ [f] }

/-- Append `n` bytes through the last file, if it has room. -/
def appendLast (n : ℕ) (mem : Mem) : Option (MapedFileQueue Mem) :=
  match q.mapedFiles.getLast? with
  | none => none
  | some last => (last.append q.mapedFileSize n mem).map q.setLast

end MapedFileQueue

end CloudMQ.Segment
