import CloudMQ.QueueEntries
import CloudMQ.Runs

/-!
Delayed delivery: `ScheduleMessageService`, for one delay level.

The queue of a level is read by a chain of timer tasks. Each reads the entries from its offset to
the end of a file of the queue, puts the messages that are due under their own topic, and leaves
the next task and the entry of `offsetTable` where it stopped. The table is written to a file from
time to time, and a store that is started goes on from there.

What the clock says and what the store answers comes with the step. The level remembers what
became of the entries its tasks went over.
-/

namespace CloudMQ.ScheduleMessage

open CloudMQ.Utf8 CloudMQ.Strings CloudMQ.Message CloudMQ.CommitLog CloudMQ.Segment
open CloudMQ.ConsumeQueues CloudMQ.QueueEntries CloudMQ.Runs

/-! ### One message -/

/-- A message of the delay queue, as far as it is read. -/
structure MessageExt where
  body : Option ByteArr
  flag : Int32
  properties : Props
  sysFlag : Int32
  bornTimestamp : Int64
  bornHost : InetSocketAddress
  storeHost : InetSocketAddress
  reconsumeTimes : Int32

/-- What is put for it; without its real topic it has none. -/
structure MessageInner where
  topic : Option Text
  queueId : Int32
  body : Option ByteArr
  flag : Int32
  properties : Props
  propertiesString : Text
  tagsCode : Int64
  sysFlag : Int32
  bornTimestamp : Int64
  bornHost : InetSocketAddress
  storeHost : InetSocketAddress
  reconsumeTimes : Int32

/-- `messageTimeup`; `none` is a `NumberFormatException`. The filter type is the one of a message
whose flags are not set yet, and the properties string is made before the delay is cleared. -/
def messageTimeup (order : EntryOrder) (msgExt : MessageExt) : Option MessageInner := do
  let properties := (msgExt.properties.put PROPERTY_WAIT_STORE_MSG_OK "false".toList).erase
    PROPERTY_DELAY_TIME_LEVEL
  let queueId ← (properties.get PROPERTY_REAL_QUEUE_ID).bind parseInt
  return {
    topic := properties.get PROPERTY_REAL_TOPIC
    queueId := queueId
    body := msgExt.body
    flag := msgExt.flag
    properties := properties
    propertiesString := messageProperties2String order msgExt.properties
    tagsCode := tagsString2tagsCode (parseTopicFilterType 0) (msgExt.properties.get PROPERTY_TAGS)
    sysFlag := msgExt.sysFlag
    bornTimestamp := msgExt.bornTimestamp
    bornHost := msgExt.bornHost
    storeHost := msgExt.storeHost
    reconsumeTimes := msgExt.reconsumeTimes }

/-- A time beyond the delay of the level counts as now. -/
def correctDeliverTimestamp (delay now deliverTimestamp : Int64) : Int64 :=
  if now + delay < deliverTimestamp then now else deliverTimestamp

/-- What one pass of the loop meets. -/
structure Pass where
  now : Int64
  entryOrder : EntryOrder
  lookMessageByOffset : Int64 → Int32 → Option MessageExt
  /-- an exception, or the status of the result, if there is one -/
  putMessage : MessageInner → Except Unit (Option PutMessageStatus)

/-- What becomes of an entry. -/
inductive Outcome
  | notDue
  | notFound
  | timeupThrew
  | putThrew
  | reput
  | refused
  deriving DecidableEq, Repr

/-- The body of the loop of `executeOnTimeup`, up to where it goes on, stops or returns. -/
def outcome (delay : Int64) (p : Pass) (u : CQUnit) : Outcome :=
  -- the tags code of an entry of a delay queue is a time
  let countdown := correctDeliverTimestamp delay p.now u.tagsCode - p.now
  if countdown ≤ 0 then
    match p.lookMessageByOffset u.offset u.size with
    | none => .notFound
    | some msgExt =>
      match messageTimeup p.entryOrder msgExt with
      | none => .timeupThrew
      | some msgInner =>
        match p.putMessage msgInner with
        | .error _ => .putThrew
        | .ok status => if status = some .PUT_OK then .reput else .refused
  else .notDue

/-- The loop goes on to the next entry; an exception drops the message. -/
def Outcome.goesOn : Outcome → Bool
  | .notFound | .timeupThrew | .putThrew | .reput => true
  | .notDue | .refused => false

/-- `putMessage` was called. -/
def Outcome.isPut : Outcome → Bool
  | .putThrew | .reput | .refused => true
  | .notDue | .notFound | .timeupThrew => false

/-! ### The level -/

/-- The task of a level: it waits for the timer, it found no buffer and has the smallest offset to
read yet, or it is in its loop, `i` entries having been read and `rest` being left of the buffer. -/
inductive Task
  | scheduled (offset : ℕ)
  | missing (offset : ℕ)
  | executing (offset i : ℕ) (rest : List CQUnit)

structure DelayLevel where
  cq : ConsumeQueue
  /-- the entry of the level -/
  offsetTable : Option ℕ
  /-- the entry of the level in the file -/
  delayOffset : Option ℕ
  task : Task
  /-- the entries the tasks went over, by number, and what became of them -/
  handled : List (ℕ × CQUnit × Outcome)
  /-- the numbers a task skipped because they were below the smallest one -/
  passed : List ℕ
  /-- the calls of `putMessage` since the level was started -/
  reputs : List (ℕ × Outcome)

namespace DelayLevel

def updateOffset (offset : ℕ) (s : DelayLevel) : DelayLevel :=
  { s with offsetTable := some offset, task := .scheduled offset }

/-- The next entry of the buffer. -/
def passEntry (delay : Int64) (p : Pass) (offset i : ℕ) (u : CQUnit) (rest : List CQUnit)
    (s : DelayLevel) : DelayLevel :=
  let o := outcome delay p u
  let nextOffset := offset + i
  let s := if o.isPut then { s with reputs := s.reputs ++ [(nextOffset, o)] } else s
  if o.goesOn then
    { s with task := .executing offset (i + 1) rest, handled := s.handled ++ [(nextOffset, u, o)] }
  else s.updateOffset nextOffset

/-- `getMinOffsetInQuque`, for a task that found no buffer. -/
def correctOffset (offset : ℕ) (s : DelayLevel) : DelayLevel :=
  let cqMinOffset := s.cq.getMinOffsetInQuque
  if offset < cqMinOffset then
    { s with task := .scheduled cqMinOffset
             passed := s.passed ++ List.range' offset (cqMinOffset - offset) }
  else { s with task := .scheduled offset }

/-- `load` and `start`, with the queue that was recovered. What became of entries that are lost
is forgotten. -/
def restart (cq : ConsumeQueue) (s : DelayLevel) : DelayLevel where
  cq := cq
  offsetTable := s.delayOffset
  delayOffset := s.delayOffset
  task := .scheduled (s.delayOffset.getD 0)
  handled := s.handled.filter fun h => h.1 < cq.getMaxOffsetInQuque
  passed := s.passed.filter (· < cq.getMaxOffsetInQuque)
  reputs := []

end DelayLevel

inductive Action
  /-- an entry is dispatched to the queue -/
  | append (writeable : Bool) (created : ℕ → Bool) (u : CQUnit) (cqOffset : ℕ)
  | deleteExpiredFile (offset : ℤ) (destroys : MapedFile (List CQUnit) → Bool)
  /-- the timer runs the task -/
  | timeup
  | pass (p : Pass)
  | persist
  | restart (recovered : ConsumeQueue)

def step (delay : Int64) (s : DelayLevel) : Action → Option DelayLevel
  | .append writeable created u cqOffset =>
    some { s with cq := (s.cq.putMessagePostionInfoWrapper writeable created u cqOffset).1 }
  | .deleteExpiredFile offset destroys =>
    some { s with cq := deleteExpiredFile offset destroys s.cq }
  | .timeup =>
    match s.task with
    | .scheduled offset =>
      match getIndexBuffer s.cq offset with
      | some us => some { s with task := .executing offset 0 us }
      | none => some { s with task := .missing offset }
    | .missing offset => some (s.correctOffset offset)
    | .executing _ _ _ => none
  | .pass p =>
    match s.task with
    | .executing offset i (u :: rest) => some (s.passEntry delay p offset i u rest)
    | .executing offset i [] => some (s.updateOffset (offset + i))
    | _ => none
  | .persist => some { s with delayOffset := s.offsetTable }
  | .restart recovered => some (s.restart recovered)

/-- A level of a new store, whose queue has files of the given size. -/
def newLevel (size : ℕ) (hpos : 0 < size) : DelayLevel where
  cq := newQueue size hpos
  offsetTable := none
  delayOffset := none
  task := .scheduled 0
  handled := []
  passed := []
  reputs := []

end CloudMQ.ScheduleMessage
