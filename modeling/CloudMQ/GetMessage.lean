import CloudMQ.Dispatch
import CloudMQ.QueueEntries
import CloudMQ.TagFilter

/-!
`DefaultMessageStore.getMessage`: the messages of a queue from an offset on.

The entries from the offset to the end of their file are walked through, at most 800 of them, until
the batch is full. An entry that matches is answered with its message; where the log does not have
that, the entries up to the next file of the log are passed over. An offset outside the queue is
answered with one that is in it.
-/

namespace CloudMQ.GetMessage

open CloudMQ.Buffer CloudMQ.Utf8 CloudMQ.Segment CloudMQ.Chain CloudMQ.Append CloudMQ.LogBytes
open CloudMQ.ConsumeQueues CloudMQ.QueueEntries CloudMQ.Dispatch CloudMQ.TagFilter
open CloudMQ.MessageDecoder (findMapedFile selectMapedBuffer_some)

/-! ### The store -/

/-- `memory` is the part of the physical memory that messages are expected in. -/
structure TransferConfig where
  maxTransferBytesOnMessageInMemory : Int32 := 1024 * 256
  maxTransferCountOnMessageInMemory : Int32 := 32
  maxTransferBytesOnMessageInDisk : Int32 := 1024 * 64
  maxTransferCountOnMessageInDisk : Int32 := 8
  memory : ℤ

/-- The queues consist of whole entries, and the files of the log follow each other. -/
structure MessageStore where
  shutdown : Bool := false
  readable : Bool := true
  transfer : TransferConfig
  queueConfig : QueueConfig
  consumeQueueTable : ConsumeQueueTable
  commitLog : MapedFileQueue Bytes
  whole : ∀ key cq, consumeQueueTable key = some cq → WholeQueue cq
  chained : Chained commitLog
  mapped : Mapped commitLog

inductive GetMessageStatus
  | FOUND
  | NO_MATCHED_MESSAGE
  | MESSAGE_WAS_REMOVING
  | OFFSET_FOUND_NULL
  | OFFSET_OVERFLOW_BADLY
  | OFFSET_OVERFLOW_ONE
  | OFFSET_TOO_SMALL
  | NO_MATCHED_LOGIC_QUEUE
  | NO_MESSAGE_IN_QUEUE
deriving DecidableEq

structure GetMessageResult where
  messageMapedList : List SelectMapedBufferResult := []
  bufferTotalSize : Int32 := 0
  status : GetMessageStatus
  nextBeginOffset : ℤ
  minOffset : ℤ
  maxOffset : ℤ
  suggestPullingFromSlave : Bool := false

/-- `CommitLog.getMessage`, with the place of the buffer. -/
def selectMessage (q : MapedFileQueue Bytes) (offset : Int64) (size : Int32) :
    Except Unit (Option SelectMapedBufferResult) :=
  match findMapedFile q offset.toInt (decide (offset = 0)) with
  | none => .ok none
  | some f =>
    let pos := offset.toInt.tmod q.mapedFileSize
    (MessageDecoder.selectMapedBuffer f pos size).map fun r => r.map fun byteBuffer =>
      ⟨f.fileFromOffset + pos.toNat, byteBuffer⟩

/-- `CommitLog.rollNextFile` -/
def rollNextFile (mapedFileSize offset : ℤ) : ℤ :=
  offset + mapedFileSize - offset.tmod mapedFileSize

/-- `ConsumeQueue.rollNextFile` -/
def rollNextQueueFile (cq : ConsumeQueue) (index : ℤ) : ℤ :=
  let totalUnitsInFile : ℤ := cq.mapedFileQueue.mapedFileSize / CQStoreUnitSize
  index + totalUnitsInFile - index.tmod totalUnitsInFile

/-- The last rows of the checks of `isTheBatchFull`. -/
def exceeds (maxBytes maxCount sizePy bufferTotal messageTotal : Int32) : Bool :=
  decide (maxBytes < bufferTotal + sizePy) || decide (maxCount < messageTotal + 1)

/-- The first message is taken whatever its size is. -/
def isTheBatchFull (cfg : TransferConfig) (sizePy maxMsgNums bufferTotal messageTotal : Int32)
    (isInDisk : Bool) : Bool :=
  if bufferTotal = 0 ∨ messageTotal = 0 then false
  else if maxMsgNums ≤ messageTotal + 1 then true
  else if isInDisk then
    exceeds cfg.maxTransferBytesOnMessageInDisk cfg.maxTransferCountOnMessageInDisk sizePy
      bufferTotal messageTotal
  else
    exceeds cfg.maxTransferBytesOnMessageInMemory cfg.maxTransferCountOnMessageInMemory sizePy
      bufferTotal messageTotal

/-- The state of the loop over the entries. `nextPhyFileStartOffset` is `none` for
`Long.MIN_VALUE`. -/
structure Scan where
  messageMapedList : List SelectMapedBufferResult := []
  bufferTotalSize : Int32 := 0
  status : GetMessageStatus := .NO_MATCHED_MESSAGE
  nextPhyFileStartOffset : Option ℤ := none
  maxPhyOffsetPulling : ℤ := 0

namespace MessageStore

variable (s : MessageStore)

/-- The queue that is found, which may be a new one. -/
def queue (key : Text × Int32) : ConsumeQueue :=
  findConsumeQueue s.queueConfig key s.consumeQueueTable

lemma whole_queue (key : Text × Int32) : WholeQueue (s.queue key) := by
  unfold queue findConsumeQueue
  cases hkey : s.consumeQueueTable key with
  | none => exact (tracked_newQueue s.queueConfig.size_pos s.queueConfig.dvd_size).toWhole
  | some cq => exact s.whole key cq hkey

def checkInDiskByCommitOffset (offsetPy maxOffsetPy : ℤ) : Bool :=
  decide (s.transfer.memory < maxOffsetPy - offsetPy)

/-- Whether an entry ends the loop, after messages of these total sizes. -/
def isFullAt (maxMsgNums bufferTotal messageTotal : Int32) (u : CQUnit) : Bool :=
  isTheBatchFull s.transfer u.size maxMsgNums bufferTotal messageTotal
    (s.checkInDiskByCommitOffset u.offset.toInt s.commitLog.getMaxOffset)

/-- The entries up to the file of the log that is tried next are passed over. -/
def passesOver (t : Scan) (u : CQUnit) : Bool :=
  match t.nextPhyFileStartOffset with
  | none => false
  | some next => decide (u.offset.toInt < next)

def read (u : CQUnit) : Except Unit (Option SelectMapedBufferResult) :=
  selectMessage s.commitLog u.offset u.size

/-- `GetMessageResult.addMessage`, and what follows it. -/
def addMessage (t : Scan) (u : CQUnit) (r : SelectMapedBufferResult) : Scan :=
  { t with
    messageMapedList := t.messageMapedList ++ [r]
    bufferTotalSize := t.bufferTotalSize + u.size
    status := .FOUND
    nextPhyFileStartOffset := none }

/-- A message that the log does not have. -/
def wasRemoving (t : Scan) (u : CQUnit) : Scan :=
  { t with
    status := if t.bufferTotalSize = 0 then .MESSAGE_WAS_REMOVING else t.status
    nextPhyFileStartOffset := some (rollNextFile s.commitLog.mapedFileSize u.offset.toInt) }

/-- A message that is not asked for. -/
def notMatched (t : Scan) : Scan :=
  { t with status := if t.bufferTotalSize = 0 then .NO_MATCHED_MESSAGE else t.status }

/-- The loop, with the number of entries that it has gone through. -/
def scan (maxMsgNums : Int32) (subscriptionData : Option SubscriptionData) :
    List CQUnit → Scan → Except Unit (ℕ × Scan)
  | [], t => .ok (0, t)
  | u :: us, t =>
    let t := { t with maxPhyOffsetPulling := u.offset.toInt }
    if passesOver t u then (scan maxMsgNums subscriptionData us t).map fun r => (r.1 + 1, r.2)
    else if s.isFullAt maxMsgNums t.bufferTotalSize (Int32.ofNat t.messageMapedList.length) u then
      .ok (0, t)
    else if isMessageMatched subscriptionData u.tagsCode then
      match s.read u with
      | .error e => .error e
      | .ok (some r) =>
        (scan maxMsgNums subscriptionData us (addMessage t u r)).map fun r => (r.1 + 1, r.2)
      | .ok none =>
        (scan maxMsgNums subscriptionData us (s.wasRemoving t u)).map fun r => (r.1 + 1, r.2)
    else (scan maxMsgNums subscriptionData us (notMatched t)).map fun r => (r.1 + 1, r.2)

def MaxFilterMessageCount : ℕ := 16000

/-- The entries that the loop can get to. -/
def scanned (bufferConsumeQueue : List CQUnit) : List CQUnit :=
  bufferConsumeQueue.take ((MaxFilterMessageCount + (CQStoreUnitSize - 1)) / CQStoreUnitSize)

/-- A store that is shut down or not readable answers `null`. A queue is made when it is looked
for, and so `NO_MATCHED_LOGIC_QUEUE` is not answered. -/
def getMessage (topic : Text) (queueId : Int32) (offset : ℤ) (maxMsgNums : Int32)
    (subscriptionData : Option SubscriptionData) : Except Unit (Option GetMessageResult) :=
  if s.shutdown || !s.readable then .ok none
  else
    let consumeQueue := s.queue (topic, queueId)
    let minOffset : ℤ := consumeQueue.getMinOffsetInQuque
    let maxOffset : ℤ := consumeQueue.getMaxOffsetInQuque
    if maxOffset = 0 then
      .ok (some { status := .NO_MESSAGE_IN_QUEUE, nextBeginOffset := 0, minOffset, maxOffset })
    else if offset < minOffset then
      .ok (some { status := .OFFSET_TOO_SMALL, nextBeginOffset := minOffset, minOffset, maxOffset })
    else if offset = maxOffset then
      .ok (some { status := .OFFSET_OVERFLOW_ONE, nextBeginOffset := offset, minOffset, maxOffset })
    else if maxOffset < offset then
      .ok (some {
        status := .OFFSET_OVERFLOW_BADLY
        nextBeginOffset := if 0 = minOffset then minOffset else maxOffset
        minOffset
        maxOffset })
    else
      match getIndexBuffer consumeQueue offset.toNat with
      | none =>
        .ok (some {
          status := .OFFSET_FOUND_NULL
          nextBeginOffset := rollNextQueueFile consumeQueue offset
          minOffset
          maxOffset })
      | some bufferConsumeQueue =>
        (s.scan maxMsgNums subscriptionData (scanned bufferConsumeQueue) {}).map fun r => some {
          messageMapedList := r.2.messageMapedList
          bufferTotalSize := r.2.bufferTotalSize
          status := r.2.status
          nextBeginOffset := offset + r.1
          minOffset
          maxOffset
          suggestPullingFromSlave :=
            decide (s.transfer.memory < s.commitLog.getMaxOffset - r.2.maxPhyOffsetPulling) }

end MessageStore

/-! ### The loop -/

section Loop

variable {s : MessageStore} {maxMsgNums : Int32} {data : Option SubscriptionData}

/-- What a turn does that does not end the loop. -/
inductive Turn (s : MessageStore) (maxMsgNums : Int32) (data : Option SubscriptionData)
    (u : CQUnit) (t : Scan) : Scan → Prop
  | passed (hover : MessageStore.passesOver t u) :
      Turn s maxMsgNums data u t { t with maxPhyOffsetPulling := u.offset.toInt }
  | added (r : SelectMapedBufferResult)
      (hroom : ¬s.isFullAt maxMsgNums t.bufferTotalSize (Int32.ofNat t.messageMapedList.length) u)
      (hmatch : isMessageMatched data u.tagsCode) (hread : s.read u = .ok (some r)) :
      Turn s maxMsgNums data u t
        (MessageStore.addMessage { t with maxPhyOffsetPulling := u.offset.toInt } u r)
  | removing
      (hroom : ¬s.isFullAt maxMsgNums t.bufferTotalSize (Int32.ofNat t.messageMapedList.length) u)
      (hmatch : isMessageMatched data u.tagsCode) (hread : s.read u = .ok none) :
      Turn s maxMsgNums data u t
        (s.wasRemoving { t with maxPhyOffsetPulling := u.offset.toInt } u)
  | notMatched
      (hroom : ¬s.isFullAt maxMsgNums t.bufferTotalSize (Int32.ofNat t.messageMapedList.length) u)
      (hmatch : ¬isMessageMatched data u.tagsCode) :
      Turn s maxMsgNums data u t
        (MessageStore.notMatched { t with maxPhyOffsetPulling := u.offset.toInt })

lemma of_map_succ {e : Except Unit (ℕ × Scan)} {k : ℕ} {t' : Scan}
    (h : e.map (fun r => (r.1 + 1, r.2)) = .ok (k, t')) : ∃ k', k = k' + 1 ∧ e = .ok (k', t') := by
  cases e with
  | error e => exact absurd h (by simp [Except.map])
  | ok r =>
    obtain ⟨rfl, rfl⟩ := Prod.mk.inj (Except.ok.inj h)
    exact ⟨r.1, rfl, rfl⟩

/-- The loop ends at an entry, or makes a turn. -/
lemma scan_cons {u : CQUnit} {us : List CQUnit} {t t' : Scan} {k : ℕ}
    (h : s.scan maxMsgNums data (u :: us) t = .ok (k, t')) :
    (k = 0 ∧ t' = { t with maxPhyOffsetPulling := u.offset.toInt } ∧
      ¬MessageStore.passesOver t u ∧
      s.isFullAt maxMsgNums t.bufferTotalSize (Int32.ofNat t.messageMapedList.length) u) ∨
    ∃ k' t₁, k = k' + 1 ∧ Turn s maxMsgNums data u t t₁ ∧
      s.scan maxMsgNums data us t₁ = .ok (k', t') := by
  rw [MessageStore.scan] at h
  dsimp only at h
  split at h
  · next hover =>
    obtain ⟨k', rfl, hrest⟩ := of_map_succ h
    exact .inr ⟨k', _, rfl, .passed hover, hrest⟩
  next hover =>
  split at h
  · next hfull =>
    obtain ⟨rfl, rfl⟩ := Prod.mk.inj (Except.ok.inj h)
    exact .inl ⟨rfl, rfl, hover, hfull⟩
  next hroom =>
  split at h
  · next hmatch =>
    split at h
    · exact absurd h (by simp)
    · next r hread =>
      obtain ⟨k', rfl, hrest⟩ := of_map_succ h
      exact .inr ⟨k', _, rfl, .added r hroom hmatch hread, hrest⟩
    · next hread =>
      obtain ⟨k', rfl, hrest⟩ := of_map_succ h
      exact .inr ⟨k', _, rfl, .removing hroom hmatch hread, hrest⟩
  · next hmatch =>
    obtain ⟨k', rfl, hrest⟩ := of_map_succ h
    exact .inr ⟨k', _, rfl, .notMatched hroom hmatch, hrest⟩

/-- A turn keeps what was found, and adds nothing but the message of its entry. -/
lemma Turn.messages {u : CQUnit} {t t₁ : Scan} (h : Turn s maxMsgNums data u t t₁) :
    t.messageMapedList ⊆ t₁.messageMapedList ∧
      ∀ r ∈ t₁.messageMapedList, r ∈ t.messageMapedList ∨ s.read u = .ok (some r) := by
  cases h with
  | passed hover => exact ⟨List.Subset.refl _, fun r hr => .inl hr⟩
  | added r hroom hmatch hread =>
    refine ⟨List.subset_append_left _ _, fun r' hr' => ?_⟩
    rcases List.mem_append.mp hr' with hr' | hr'
    · exact .inl hr'
    · rw [List.mem_singleton.mp hr']
      exact .inr hread
  | removing hroom hmatch hread => exact ⟨List.Subset.refl _, fun r hr => .inl hr⟩
  | notMatched hroom hmatch => exact ⟨List.Subset.refl _, fun r hr => .inl hr⟩

/-- What the loop answers was there before, or is the message of one of the entries. -/
lemma scan_messages {us : List CQUnit} {t t' : Scan} {k : ℕ}
    (h : s.scan maxMsgNums data us t = .ok (k, t')) :
    k ≤ us.length ∧ t.messageMapedList ⊆ t'.messageMapedList ∧
      ∀ r ∈ t'.messageMapedList, r ∈ t.messageMapedList ∨ ∃ u ∈ us, s.read u = .ok (some r) := by
  induction us generalizing t k with
  | nil =>
    obtain ⟨rfl, rfl⟩ := Prod.mk.inj (Except.ok.inj h)
    exact ⟨le_rfl, List.Subset.refl _, fun r hr => .inl hr⟩
  | cons u us ih =>
    rcases scan_cons h with ⟨rfl, rfl, -, -⟩ | ⟨k', t₁, rfl, hturn, hrest⟩
    · exact ⟨Nat.zero_le _, List.Subset.refl _, fun r hr => .inl hr⟩
    · obtain ⟨hlen, hkept, hfrom⟩ := ih hrest
      obtain ⟨hkept₁, hfrom₁⟩ := hturn.messages
      refine ⟨Nat.succ_le_succ hlen, fun r hr => hkept (hkept₁ hr), fun r hr => ?_⟩
      rcases hfrom r hr with hr | ⟨v, hv, hread⟩
      · exact (hfrom₁ r hr).imp_right fun hread => ⟨u, List.mem_cons_self, hread⟩
      · exact .inr ⟨v, List.mem_cons_of_mem _ hv, hread⟩

/-- The entries that fit into one answer when the log has every message that is asked for. -/
def batch (s : MessageStore) (maxMsgNums : Int32) (data : Option SubscriptionData) :
    List CQUnit → Int32 → ℕ → List CQUnit
  | [], _, _ => []
  | u :: us, bufferTotal, messageTotal =>
    if s.isFullAt maxMsgNums bufferTotal (Int32.ofNat messageTotal) u then []
    else if isMessageMatched data u.tagsCode then
      u :: batch s maxMsgNums data us (bufferTotal + u.size) (messageTotal + 1)
    else u :: batch s maxMsgNums data us bufferTotal messageTotal

/-- The batch that a state of the loop is at. -/
def Scan.batch (t : Scan) (s : MessageStore) (maxMsgNums : Int32) (data : Option SubscriptionData)
    (us : List CQUnit) : List CQUnit :=
  GetMessage.batch s maxMsgNums data us t.bufferTotalSize t.messageMapedList.length

lemma batch_prefix (us : List CQUnit) (bufferTotal : Int32) (messageTotal : ℕ) :
    batch s maxMsgNums data us bufferTotal messageTotal <+: us := by
  induction us generalizing bufferTotal messageTotal with
  | nil => exact List.prefix_refl []
  | cons u us ih =>
    rw [batch]
    split
    · exact List.nil_prefix
    · split
      · exact List.cons_prefix_cons.mpr ⟨rfl, ih _ _⟩
      · exact List.cons_prefix_cons.mpr ⟨rfl, ih _ _⟩

lemma getElem?_of_batch {us : List CQUnit} {bufferTotal : Int32} {messageTotal j : ℕ} {u : CQUnit}
    (h : (batch s maxMsgNums data us bufferTotal messageTotal)[j]? = some u) :
    us[j]? = some u := by
  have hprefix : batch s maxMsgNums data us bufferTotal messageTotal <+: us := batch_prefix us _ _
  obtain ⟨rest, hrest⟩ := hprefix
  rw [← List.getElem?_append_left (List.getElem?_eq_some_iff.mp h).1, hrest] at h
  exact h

/-- An entry that is not passed over is one of the batch. -/
lemma Turn.mem_batch {u : CQUnit} {t t₁ : Scan} (h : Turn s maxMsgNums data u t t₁)
    (hfree : t.nextPhyFileStartOffset = none) (us : List CQUnit) :
    u ∈ t.batch s maxMsgNums data (u :: us) := by
  rw [Scan.batch, GetMessage.batch]
  cases h with
  | passed hover =>
    rw [MessageStore.passesOver, hfree] at hover
    exact absurd hover (by simp)
  | added r hroom hmatch hread =>
    rw [if_neg hroom, if_pos hmatch]
    exact List.mem_cons_self
  | removing hroom hmatch hnone =>
    rw [if_neg hroom, if_pos hmatch]
    exact List.mem_cons_self
  | notMatched hroom hmatch =>
    rw [if_neg hroom, if_neg hmatch]
    exact List.mem_cons_self

/-- A turn that passes no entry over goes on with the rest of the batch, as long as the log has
the messages that are asked for. -/
lemma Turn.batch {u : CQUnit} {t t₁ : Scan} (h : Turn s maxMsgNums data u t t₁)
    (us : List CQUnit) (hfree : t.nextPhyFileStartOffset = none)
    (hread : isMessageMatched data u.tagsCode → ∃ r, s.read u = .ok (some r)) :
    t₁.nextPhyFileStartOffset = none ∧
      t.batch s maxMsgNums data (u :: us) = u :: t₁.batch s maxMsgNums data us ∧
      (isMessageMatched data u.tagsCode → ∃ r, s.read u = .ok (some r) ∧
        r ∈ t₁.messageMapedList) := by
  rw [Scan.batch, GetMessage.batch]
  cases h with
  | passed hover =>
    rw [MessageStore.passesOver, hfree] at hover
    exact absurd hover (by simp)
  | added r hroom hmatch hread =>
    rw [if_neg hroom, if_pos hmatch]
    refine ⟨rfl, ?_, fun _ => ⟨r, hread, List.mem_append_right _ (List.mem_singleton_self r)⟩⟩
    rw [Scan.batch, MessageStore.addMessage, List.length_append, List.length_singleton]
  | removing hroom hmatch hnone =>
    obtain ⟨r, hr⟩ := hread hmatch
    rw [hnone] at hr
    exact absurd hr (by simp)
  | notMatched hroom hmatch =>
    rw [if_neg hroom, if_neg hmatch]
    exact ⟨hfree, rfl, fun h => absurd h hmatch⟩

/-- **Nothing is missed** when the log has the messages of the batch. -/
lemma scan_complete {us : List CQUnit} {t t' : Scan} {k : ℕ}
    (h : s.scan maxMsgNums data us t = .ok (k, t')) (hfree : t.nextPhyFileStartOffset = none)
    (hread : ∀ u ∈ t.batch s maxMsgNums data us, isMessageMatched data u.tagsCode →
      ∃ r, s.read u = .ok (some r)) {j : ℕ} {u : CQUnit} (hj : j < k) (hu : us[j]? = some u)
    (hmatch : isMessageMatched data u.tagsCode) :
    ∃ r, s.read u = .ok (some r) ∧ r ∈ t'.messageMapedList := by
  induction us generalizing t k j with
  | nil => exact absurd hu (by simp)
  | cons v us ih =>
    rcases scan_cons h with ⟨rfl, -, -, -⟩ | ⟨k', t₁, rfl, hturn, hrest⟩
    · exact absurd hj (Nat.not_lt_zero j)
    have hroom := hturn.mem_batch hfree us
    obtain ⟨hfree₁, hbatch, hfound⟩ := hturn.batch us hfree (hread v hroom)
    cases j with
    | zero =>
      obtain rfl := Option.some.inj hu
      obtain ⟨r, hr, hmem⟩ := hfound hmatch
      exact ⟨r, hr, (scan_messages hrest).2.1 hmem⟩
    | succ j =>
      refine ih hrest hfree₁ (fun w hw => hread w ?_) (Nat.lt_of_succ_lt_succ hj) hu
      rw [hbatch]
      exact List.mem_cons_of_mem _ hw

/-- The bytes of the messages that are asked for. -/
def total (data : Option SubscriptionData) (us : List CQUnit) : Int32 :=
  ((us.filter fun u => isMessageMatched data u.tagsCode).map (·.size)).sum

lemma total_singleton (u : CQUnit) :
    total data [u] = if isMessageMatched data u.tagsCode then u.size else 0 := by
  by_cases hmatch : isMessageMatched data u.tagsCode
  · simp [total, hmatch]
  · simp [total, hmatch]

/-- The totals and the status behind a turn. -/
lemma Turn.status {u : CQUnit} {t t₁ : Scan} (h : Turn s maxMsgNums data u t t₁)
    (hfree : t.nextPhyFileStartOffset = none)
    (hread : isMessageMatched data u.tagsCode → ∃ r, s.read u = .ok (some r)) :
    t₁.bufferTotalSize = t.bufferTotalSize + total data [u] ∧
      t₁.status = if isMessageMatched data u.tagsCode then .FOUND
        else if t.bufferTotalSize = 0 then .NO_MATCHED_MESSAGE else t.status := by
  cases h with
  | passed hover =>
    rw [MessageStore.passesOver, hfree] at hover
    exact absurd hover (by simp)
  | added r hroom hmatch hread =>
    rw [total_singleton, if_pos hmatch, if_pos hmatch]
    exact ⟨rfl, rfl⟩
  | removing hroom hmatch hnone =>
    obtain ⟨r, hr⟩ := hread hmatch
    rw [hnone] at hr
    exact absurd hr (by simp)
  | notMatched hroom hmatch =>
    rw [total_singleton, if_neg hmatch, if_neg hmatch]
    exact ⟨(Int32.add_zero _).symm, rfl⟩

lemma total_cons (u : CQUnit) (us : List CQUnit) :
    total data (u :: us) = total data [u] + total data us := by
  rw [total, total, total, ← List.sum_append, ← List.map_append, ← List.filter_append]
  rfl

lemma total_of_forall_not {us : List CQUnit}
    (h : ∀ u ∈ us, ¬isMessageMatched data u.tagsCode) : total data us = 0 := by
  rw [total, List.filter_eq_nil_iff.mpr h]
  rfl

/-- **A whole batch.** The loop ends behind it. It has not found messages when there are none; and
it forgets that it has when they are followed by others and their bytes sum up to zero. -/
lemma scan_batch {us : List CQUnit} {t t' : Scan} {k : ℕ}
    (h : s.scan maxMsgNums data us t = .ok (k, t')) (hfree : t.nextPhyFileStartOffset = none)
    (hread : ∀ u ∈ t.batch s maxMsgNums data us, isMessageMatched data u.tagsCode →
      ∃ r, s.read u = .ok (some r)) :
    k = (t.batch s maxMsgNums data us).length ∧
      t'.bufferTotalSize = t.bufferTotalSize + total data (t.batch s maxMsgNums data us) ∧
      (t'.status = .FOUND ↔ match (t.batch s maxMsgNums data us).getLast? with
        | none => t.status = .FOUND
        | some u => isMessageMatched data u.tagsCode ∨ t'.bufferTotalSize ≠ 0 ∧
          (t.status = .FOUND ∨
            ∃ v ∈ t.batch s maxMsgNums data us, isMessageMatched data v.tagsCode)) := by
  induction us generalizing t k with
  | nil =>
    obtain ⟨rfl, rfl⟩ := Prod.mk.inj (Except.ok.inj h)
    exact ⟨rfl, (Int32.add_zero _).symm, Iff.rfl⟩
  | cons u us ih =>
    rcases scan_cons h with ⟨rfl, rfl, -, hfull⟩ | ⟨k', t₁, rfl, hturn, hrest⟩
    · have hbatch : t.batch s maxMsgNums data (u :: us) = [] := by
        rw [Scan.batch, batch, if_pos hfull]
      rw [hbatch]
      exact ⟨rfl, (Int32.add_zero _).symm, Iff.rfl⟩
    have hroom := hturn.mem_batch hfree us
    obtain ⟨hfree₁, hbatch, -⟩ := hturn.batch us hfree (hread u hroom)
    obtain ⟨htotal₁, hstatus₁⟩ := hturn.status hfree (hread u hroom)
    rw [hbatch] at hread ⊢
    obtain ⟨hk, htotal, hfound⟩ := ih hrest hfree₁ fun w hw => hread w (List.mem_cons_of_mem _ hw)
    refine ⟨congrArg (· + 1) hk, ?_, ?_⟩
    · rw [htotal, htotal₁, Int32.add_assoc, ← total_cons]
    rw [hfound]
    cases hb : t₁.batch s maxMsgNums data us with
    | nil =>
      -- the entry is the last one
      rw [hb] at htotal
      have hsame : t'.bufferTotalSize = t₁.bufferTotalSize := htotal.trans (Int32.add_zero _)
      simp only [List.getLast?_nil, List.getLast?_singleton, List.mem_singleton, exists_eq_left]
      rw [hstatus₁]
      by_cases hmatch : isMessageMatched data u.tagsCode
      · simp [hmatch]
      · have hzero : total data [u] = 0 := total_of_forall_not (by simpa using hmatch)
        rw [hsame, htotal₁, hzero, Int32.add_zero]
        by_cases h0 : t.bufferTotalSize = 0
        · simp [hmatch, h0]
        · simp [hmatch, h0]
    | cons w rest =>
      rw [hb] at htotal
      rw [List.getLast?_cons_cons, List.getLast?_cons]
      dsimp only
      refine or_congr_right (and_congr_right fun hne => ?_)
      by_cases hmatch : isMessageMatched data u.tagsCode
      · simp [hstatus₁, hmatch]
      rw [List.exists_mem_cons_iff (a := u), or_iff_right hmatch]
      by_cases hrestm : ∃ v ∈ w :: rest, isMessageMatched data v.tagsCode
      · exact iff_of_true (.inr hrestm) (.inr hrestm)
      · -- nothing is added to the bytes, and so the status is still there
        have hzero : total data [u] = 0 := total_of_forall_not (by simpa using hmatch)
        rw [htotal, total_of_forall_not fun v hv hm => hrestm ⟨v, hv, hm⟩, htotal₁, hzero,
          Int32.add_zero, Int32.add_zero] at hne
        rw [hstatus₁, if_neg hmatch, if_neg hne]

/-- The loop as it begins. With messages that are asked for, it ends with `FOUND` unless they are
followed by others and their bytes sum up to zero. -/
lemma scan_new {us : List CQUnit} {t : Scan} {k : ℕ}
    (h : s.scan maxMsgNums data us {} = .ok (k, t))
    (hread : ∀ u ∈ batch s maxMsgNums data us 0 0, isMessageMatched data u.tagsCode →
      ∃ r, s.read u = .ok (some r)) :
    k = (batch s maxMsgNums data us 0 0).length ∧
      ∀ u ∈ (batch s maxMsgNums data us 0 0).getLast?,
        (∃ v ∈ batch s maxMsgNums data us 0 0, isMessageMatched data v.tagsCode) →
        (t.status = .FOUND ↔ isMessageMatched data u.tagsCode ∨
          total data (batch s maxMsgNums data us 0 0) ≠ 0) := by
  obtain ⟨hk, htotal, hfound⟩ := scan_batch h rfl hread
  refine ⟨hk, fun u hu hasked => ?_⟩
  change (t.status = .FOUND ↔ match (batch s maxMsgNums data us 0 0).getLast? with
    | none => _
    | some u => _) at hfound
  rw [Option.mem_def.mp hu] at hfound
  refine hfound.trans (or_congr_right ?_)
  rw [htotal, Int32.zero_add]
  exact and_iff_left (.inr hasked)

/-- The loop gets to the first entry of the batch that a message is missing of. -/
lemma scan_reaches (good : CQUnit → Prop) {us : List CQUnit} {t t' : Scan} {k : ℕ}
    (hgood : ∀ u ∈ us, isMessageMatched data u.tagsCode → good u → ∃ r, s.read u = .ok (some r))
    (h : s.scan maxMsgNums data us t = .ok (k, t')) (hfree : t.nextPhyFileStartOffset = none)
    {u : CQUnit} (hu : u ∈ t.batch s maxMsgNums data us)
    (hmatch : isMessageMatched data u.tagsCode) (hbad : ¬good u) :
    ∃ j v, j < k ∧ us[j]? = some v ∧ isMessageMatched data v.tagsCode ∧ ¬good v := by
  induction us generalizing t k with
  | nil => exact absurd hu (by simp [Scan.batch, batch])
  | cons v us ih =>
    rcases scan_cons h with ⟨rfl, -, -, hfull⟩ | ⟨k', t₁, rfl, hturn, hrest⟩
    · rw [Scan.batch, batch, if_pos hfull] at hu
      exact absurd hu (by simp)
    by_cases hv : isMessageMatched data v.tagsCode ∧ ¬good v
    · exact ⟨0, v, Nat.succ_pos k', rfl, hv⟩
    · rw [not_and, not_not] at hv
      obtain ⟨hfree₁, hbatch, -⟩ := hturn.batch us hfree
        fun hm => hgood v List.mem_cons_self hm (hv hm)
      rw [hbatch] at hu
      rcases List.mem_cons.mp hu with rfl | hu
      · exact absurd (hv hmatch) hbad
      · obtain ⟨j, w, hj, hw⟩ :=
          ih (fun w hw => hgood w (List.mem_cons_of_mem _ hw)) hrest hfree₁ hu
        exact ⟨j + 1, w, Nat.succ_lt_succ hj, hw⟩

end Loop

/-! ### The messages of entries -/

section Read

variable {q q' : MapedFileQueue Bytes}

lemma selectMessage_eq (offset : Int64) (size : Int32) :
    (selectMessage q offset size).map (fun r => r.map (·.byteBuffer)) =
      MessageDecoder.getMessage q offset size := by
  rw [selectMessage, MessageDecoder.getMessage]
  cases findMapedFile q offset.toInt (decide (offset = 0)) with
  | none => rfl
  | some f =>
    dsimp only
    cases MessageDecoder.selectMapedBuffer f (offset.toInt.tmod q.mapedFileSize) size with
    | error e => rfl
    | ok r => cases r <;> rfl

/-- The buffer is a part of one file, and says where it was taken from. -/
lemma selectMessage_some {offset : Int64} {size : Int32} {r : SelectMapedBufferResult}
    (h : selectMessage q offset size = .ok (some r)) :
    ∃ f ∈ q.mapedFiles, ∃ pos < q.mapedFileSize, 0 ≤ size.toInt ∧ f.available ∧
      pos + size.toInt.toNat ≤ f.wrotePostion ∧
      r = ⟨f.fileFromOffset + pos, (f.mappedByteBuffer.drop pos).take size.toInt.toNat⟩ := by
  unfold selectMessage at h
  split at h
  · exact absurd h (by simp)
  next f hf =>
  dsimp only at h
  cases hsel : MessageDecoder.selectMapedBuffer f (offset.toInt.tmod q.mapedFileSize) size with
  | error e =>
    rw [hsel] at h
    exact absurd h (by simp [Except.map])
  | ok bs =>
    rw [hsel] at h
    cases bs with
    | none => exact absurd h (by simp [Except.map])
    | some bs =>
      obtain rfl := Option.some.inj (Except.ok.inj h)
      obtain ⟨hpos, hsize, hle, rfl⟩ := selectMapedBuffer_some hsel
      have hlt : offset.toInt.tmod q.mapedFileSize < q.mapedFileSize :=
        Int.tmod_lt_of_pos _ (Int.natCast_pos.mpr q.size_pos)
      refine ⟨f, ?_, (offset.toInt.tmod q.mapedFileSize).toNat, by omega, hsize, ?_, by omega, rfl⟩
      · unfold findMapedFile at hf
        split at hf
        · exact mem_of_findMapedFileByOffset hf
        · split at hf
          · exact mem_of_findMapedFileByOffset hf
          · split at hf
            · exact List.mem_of_mem_head? hf
            · exact absurd hf (by simp)
      · unfold MessageDecoder.selectMapedBuffer at hsel
        split at hsel
        · split at hsel
          · assumption
          · exact absurd hsel (by simp)
        · exact absurd hsel (by simp)

lemma length_selectMessage (hc : Chained q) (hm : Mapped q) {offset : Int64} {size : Int32}
    {r : SelectMapedBufferResult} (h : selectMessage q offset size = .ok (some r)) :
    size.toInt = r.byteBuffer.length := by
  obtain ⟨f, hf, pos, hpos, hsize, havailable, hle, rfl⟩ := selectMessage_some h
  have hwrote := wrote_le hc hf
  dsimp only
  rw [List.length_take, List.length_drop, hm f hf]
  omega

/-- Whatever was written can be selected. -/
lemma selectMessage_of_mem (hc : Chained q) {f : MapedFile Bytes} (hf : f ∈ q.mapedFiles)
    {pos : ℕ} {offset : Int64} {size : Int32} (hpos : pos < q.mapedFileSize)
    (hoffset : offset.toInt = f.fileFromOffset + pos) (hsize : 0 ≤ size.toInt)
    (havailable : f.available) (hle : pos + size.toInt.toNat ≤ f.wrotePostion) :
    selectMessage q offset size =
      .ok (some ⟨f.fileFromOffset + pos, (f.mappedByteBuffer.drop pos).take size.toInt.toNat⟩) := by
  have hnat : offset.toInt.toNat = f.fileFromOffset + pos := by omega
  have hfind : findMapedFile q offset.toInt (decide (offset = 0)) = some f := by
    rw [findMapedFile, if_pos (by omega), hnat]
    exact find_of_mem hc hf (Nat.le_add_right _ _) (Nat.add_lt_add_left hpos _) _
  have hmod : offset.toInt.tmod q.mapedFileSize = pos := by
    rw [hoffset, ← Int.natCast_add, ← Int.ofNat_tmod,
      mod_eq_sub hc hf (Nat.le_add_right _ _) (Nat.add_lt_add_left hpos _), Nat.add_sub_cancel_left]
  rw [selectMessage, hfind]
  dsimp only
  rw [hmod, MessageDecoder.selectMapedBuffer, if_pos (.inl (by omega)), if_pos havailable,
    if_neg (by omega)]
  rfl

/-- What was selected is selected again for an entry that gives its place and its length. -/
lemma selectMessage_again (hc : Chained q) (hm : Mapped q) {offset offset' : Int64}
    {size size' : Int32} {r : SelectMapedBufferResult}
    (h : selectMessage q offset' size' = .ok (some r)) (hplace : offset.toInt = r.startOffset)
    (hlength : size.toInt = r.byteBuffer.length) : selectMessage q offset size = .ok (some r) := by
  have hsame : size.toInt = size'.toInt := hlength.trans (length_selectMessage hc hm h).symm
  obtain ⟨f, hf, pos, hpos, hsize, havailable, hle, rfl⟩ := selectMessage_some h
  have hnat : size.toInt.toNat = size'.toInt.toNat := congrArg Int.toNat hsame
  rw [← hnat] at hle ⊢
  exact selectMessage_of_mem hc hf hpos hplace (by omega) havailable hle

end Read

end CloudMQ.GetMessage
