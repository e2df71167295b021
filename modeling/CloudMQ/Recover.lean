import CloudMQ.Agreement
import Mathlib.Logic.Relation

/-!
Recovery of the commit log: `recoverNormally` and `recoverAbnormally`.

Both read record after record through one buffer, sum up the sizes the records report, jump to
the next file at a blank record, and cut the log where the reading fails. The loop is written
with fuel; one step for every byte of a file is always enough.
-/

namespace CloudMQ.Recover

open CloudMQ.Buffer CloudMQ.Message CloudMQ.Record CloudMQ.Codec CloudMQ.Segment CloudMQ.Chain
open CloudMQ.Extents CloudMQ.CommitLog CloudMQ.Append CloudMQ.Agreement

/-! ### The scan -/

inductive FileEnd | error | blank
  deriving DecidableEq, Repr

/-- What the scan of one file came to: the sum of the sizes, the requests, and how it ended. -/
structure Scan where
  mapedFileOffset : ℕ
  requests : List DispatchRequest
  fileEnd : FileEnd

/-- A record of the given size in front of a scan. -/
def Scan.cons (d : DispatchRequest) (s : Scan) : Scan :=
  ⟨d.msgSize.toInt.toNat + s.mapedFileOffset, d :: s.requests, s.fileEnd⟩

section Loop

variable (check : Bytes → DispatchRequest × Bytes)

/-- The loop over one buffer; `none` is a loop that has not ended yet. A size below −1 is not
looked at. -/
def scanBuffer : ℕ → Bytes → Option Scan
  | 0, _ => none
  | fuel + 1, byteBuffer =>
    let d := (check byteBuffer).1
    let rest := (check byteBuffer).2
    if 0 < d.msgSize.toInt then (scanBuffer fuel rest).map (Scan.cons d)
    else if d.msgSize = -1 then some ⟨0, [], .error⟩
    else if d.msgSize = 0 then some ⟨0, [], .blank⟩
    else scanBuffer fuel rest

def scanFile (f : MapedFile Bytes) : Option Scan :=
  scanBuffer check (f.mappedByteBuffer.length + 1) f.mappedByteBuffer

/-- The loop over the files: where the log ends, and the requests in order. -/
def scanFiles : List (MapedFile Bytes) → Option (ℕ × List DispatchRequest)
  | [] => some (0, [])
  | [f] => (scanFile check f).map fun s => (f.fileFromOffset + s.mapedFileOffset, s.requests)
  | f :: g :: rest =>
    (scanFile check f).bind fun s =>
      match s.fileEnd with
      | .error => some (f.fileFromOffset + s.mapedFileOffset, s.requests)
      | .blank => (scanFiles (g :: rest)).map fun p => (p.1, s.requests ++ p.2)

/-- The log is cut at the end that was found. -/
def cutAt (q : MapedFileQueue Bytes) (processOffset : ℕ) : MapedFileQueue Bytes :=
  ({ q with committedWhere := processOffset } : MapedFileQueue Bytes).truncateDirtyFiles
    processOffset

/-- `recoverNormally`: from the last third file on. -/
def recoverNormally (q : MapedFileQueue Bytes) : Option (MapedFileQueue Bytes) :=
  if q.mapedFiles = [] then some q
  else (scanFiles check (q.mapedFiles.drop (q.mapedFiles.length - 3))).map fun p => cutAt q p.1

end Loop

/-! ### The checkpoint -/

structure StoreCheckpoint where
  physicMsgTimestamp : Int64
  logicsMsgTimestamp : Int64
  indexMsgTimestamp : Int64

/-- Three seconds back, against the precision of the clock. -/
def StoreCheckpoint.getMinTimestamp (c : StoreCheckpoint) : Int64 :=
  let m := min c.physicMsgTimestamp c.logicsMsgTimestamp - 3000
  if m < 0 then 0 else m

def StoreCheckpoint.getMinTimestampIndex (c : StoreCheckpoint) : Int64 :=
  min c.getMinTimestamp c.indexMsgTimestamp

def MessageMagicCodePostion : ℕ := 4
def MessageStoreTimestampPostion : ℕ := 56

/-- `isMapedFileMatchedRecover`, given the timestamp to compare with; `none` when the file is
too short to be looked at. -/
def isMapedFileMatchedRecover (timestamp : Int64) (f : MapedFile Bytes) : Option Bool := do
  let (magicCode, _) ← getInt.run (f.mappedByteBuffer.drop MessageMagicCodePostion)
  if magicCode ≠ MessageMagicCode then return false
  let (storeTimestamp, _) ← getLong.run (f.mappedByteBuffer.drop MessageStoreTimestampPostion)
  return decide (storeTimestamp ≠ 0) && decide (storeTimestamp ≤ timestamp)

/-- The index to start from, looking at the files from the last to the first. -/
def matchedIndex (timestamp : Int64) : List (MapedFile Bytes) → Option ℕ
  | [] => some 0
  | f :: earlier => do
    if ← isMapedFileMatchedRecover timestamp f then return earlier.length
    else matchedIndex timestamp earlier

/-- The timestamp of the checkpoint that counts: the index has its own when it is kept safe. -/
def recoverTimestamp (messageIndexSafe : Bool) (c : StoreCheckpoint) : Int64 :=
  if messageIndexSafe then c.getMinTimestampIndex else c.getMinTimestamp

/-- `recoverAbnormally`: the log, the offset it was cut at, and the requests that were
dispatched again. -/
def recoverAbnormally (check : Bytes → DispatchRequest × Bytes) (timestamp : Int64)
    (q : MapedFileQueue Bytes) :
    Option (MapedFileQueue Bytes × ℕ × List DispatchRequest) :=
  if q.mapedFiles = [] then some ({ q with committedWhere := 0 }, 0, [])
  else do
    let index ← matchedIndex timestamp q.mapedFiles.reverse
    let p ← scanFiles check (q.mapedFiles.drop index)
    return (cutAt q p.1, p.1, p.2)

/-! ### The loop ends -/

lemma isMapedFileMatchedRecover_isSome (timestamp : Int64) {f : MapedFile Bytes}
    (h : MessageStoreTimestampPostion + 8 ≤ f.mappedByteBuffer.length) :
    ∃ b, isMapedFileMatchedRecover timestamp f = some b := by
  have hint : 4 ≤ (f.mappedByteBuffer.drop MessageMagicCodePostion).length := by
    simp only [List.length_drop, MessageMagicCodePostion, MessageStoreTimestampPostion] at h ⊢
    omega
  have hlong : 8 ≤ (f.mappedByteBuffer.drop MessageStoreTimestampPostion).length := by
    rw [List.length_drop]
    omega
  rw [isMapedFileMatchedRecover, getInt, getLong,
    Reader.run_bind_of_some (getBytes_isSome hint), Reader.run_bind_of_some (getBytes_isSome hlong)]
  simp only [Reader.run_pure, Option.bind_eq_bind, Option.bind_some]
  split
  · exact ⟨_, rfl⟩
  · exact ⟨_, rfl⟩

section Reading

variable {max : ℕ} {svc : Option ScheduleMessageService} {checkCRC readBody : Bool}

lemma local_getInto (cap : ℕ) (len : ℤ) : (getInto cap len).Local := by
  unfold getInto
  split
  · intro bs a rest h; simp at h
  · exact local_getBytes _

lemma local_readFixed (cap : ℕ) : (readFixed cap).Local :=
  local_getInt.bind fun _ => local_getInt.bind fun _ => local_getInt.bind fun _ =>
    local_getLong.bind fun _ => local_getLong.bind fun _ => local_getInt.bind fun _ =>
      local_getLong.bind fun _ => (local_getInto _ _).bind fun _ =>
        local_getLong.bind fun _ => (local_getInto _ _).bind fun _ =>
          local_getInt.bind fun _ => local_getLong.bind fun _ => Reader.local_pure _

lemma local_readBodyPart (cap : ℕ) (crc : Int32) :
    (readBodyPart cap checkCRC readBody crc).Local := by
  refine local_getInt.bind fun bodyLen => ?_
  split
  · split
    · exact (local_getInto _ _).bind fun _ => Reader.local_pure _
    · exact (local_getBytes _).bind fun _ => Reader.local_pure _
  · exact Reader.local_pure _

lemma local_readTopic (cap : ℕ) : (readTopic cap).Local :=
  local_getByte.bind fun _ => (local_getInto _ _).bind fun _ => Reader.local_pure _

lemma local_readProperties (cap : ℕ) (topic : Utf8.Text) (f : Fixed) :
    (readProperties cap svc topic f).Local := by
  refine local_getShort.bind fun _ => ?_
  split
  · exact (local_getInto _ _).bind fun _ => (Reader.local_ofOption _).bind fun _ =>
      Reader.local_pure _
  · exact Reader.local_pure _

lemma local_readMessage (cap : ℕ) (totalSize : Int32) :
    (readMessage cap svc checkCRC readBody totalSize).Local := by
  refine (local_readFixed cap).bind fun _ => (local_readBodyPart cap _).bind fun ok => ?_
  split
  · exact (local_readTopic cap).bind fun _ => (local_readProperties cap _ _).bind fun _ =>
      Reader.local_pure _
  · exact Reader.local_pure _

/-- The part of a record behind its magic code. -/
lemma local_readByMagicCode (cap : ℕ) (totalSize magicCode : Int32) :
    (if magicCode = MessageMagicCode then readMessage cap svc checkCRC readBody totalSize
      else if magicCode = BlankMagicCode then pure (.ofSize 0)
      else pure (.ofSize (-1)) : Reader DispatchRequest).Local := by
  split
  · exact local_readMessage _ _
  · split <;> exact Reader.local_pure _

lemma local_readRecord (cap : ℕ) : (readRecord cap svc checkCRC readBody).Local :=
  local_getInt.bind fun _ => local_getInt.bind fun _ => local_readByMagicCode _ _ _

/-- A read that does not answer −1 used up bytes. -/
lemma check_length_lt {byteBuffer : Bytes}
    (h : (checkMessageAndReturnSize max svc checkCRC readBody byteBuffer).1.msgSize ≠ -1) :
    (checkMessageAndReturnSize max svc checkCRC readBody byteBuffer).2.length <
      byteBuffer.length := by
  revert h
  unfold checkMessageAndReturnSize
  split
  · next d rest hrun =>
    intro _
    obtain ⟨a, mid, h1, h2⟩ := Reader.run_bind_eq_some hrun
    obtain ⟨used, hused, -⟩ :=
      local_getInt.bind (fun magicCode => local_readByMagicCode _ a magicCode) mid d rest h2
    obtain ⟨a', mid', h3, h4⟩ := Reader.run_bind_eq_some h1
    obtain ⟨h5, h6⟩ := getBytes_eq_some h3
    simp only [Reader.run_pure, Option.some.injEq, Prod.mk.injEq] at h4
    simp only
    rw [h5, List.length_append, h4.2, hused, List.length_append]
    omega
  · intro h
    exact absurd rfl h

end Reading

section Fuel

variable {check : Bytes → DispatchRequest × Bytes}

/-- More fuel changes nothing. -/
lemma scanBuffer_mono {n : ℕ} {byteBuffer : Bytes} {s : Scan}
    (h : scanBuffer check n byteBuffer = some s) (k : ℕ) :
    scanBuffer check (n + k) byteBuffer = some s := by
  induction n generalizing byteBuffer s with
  | zero => simp [scanBuffer] at h
  | succ n ih =>
    rw [Nat.add_right_comm]
    unfold scanBuffer at h ⊢
    simp only at h ⊢
    split at h
    · next h1 =>
      rw [if_pos h1]
      obtain ⟨s', hs', rfl⟩ := Option.map_eq_some_iff.mp h
      rw [ih hs', Option.map_some]
    · next h1 =>
      rw [if_neg h1]
      split at h
      · next h2 => rw [if_pos h2]; exact h
      · next h2 =>
        rw [if_neg h2]
        split at h
        · next h3 => rw [if_pos h3]; exact h
        · next h3 => rw [if_neg h3]; exact ih h

/-- A check that uses up bytes unless it fails lets the loop end. -/
lemma scanBuffer_total (hlt : ∀ b, (check b).1.msgSize ≠ -1 → (check b).2.length < b.length)
    {n : ℕ} {byteBuffer : Bytes} (hn : byteBuffer.length < n) :
    ∃ s, scanBuffer check n byteBuffer = some s := by
  induction n generalizing byteBuffer with
  | zero => omega
  | succ n ih =>
    unfold scanBuffer
    simp only
    by_cases h2 : (check byteBuffer).1.msgSize = -1
    · rw [if_neg (by rw [h2]; decide), if_pos h2]
      exact ⟨_, rfl⟩
    · have hrest : (check byteBuffer).2.length < n := by have := hlt _ h2; omega
      obtain ⟨s, hs⟩ := ih hrest
      rw [hs, if_neg h2]
      split
      · exact ⟨_, rfl⟩
      · split <;> exact ⟨_, rfl⟩

lemma scanFile_of_scanBuffer
    (hlt : ∀ b, (check b).1.msgSize ≠ -1 → (check b).2.length < b.length) {n : ℕ}
    {f : MapedFile Bytes} {s : Scan} (h : scanBuffer check n f.mappedByteBuffer = some s) :
    scanFile check f = some s := by
  obtain ⟨s', hs'⟩ := scanBuffer_total hlt (Nat.lt_succ_self f.mappedByteBuffer.length)
  have h1 := scanBuffer_mono h (f.mappedByteBuffer.length + 1)
  have h2 := scanBuffer_mono hs' n
  rw [Nat.add_comm, h1, Option.some.injEq] at h2
  rw [scanFile, h2]
  exact hs'

/-- **Recovery terminates.** -/
lemma scanFiles_total (hlt : ∀ b, (check b).1.msgSize ≠ -1 → (check b).2.length < b.length)
    (files : List (MapedFile Bytes)) : ∃ p, scanFiles check files = some p := by
  have hfile : ∀ f : MapedFile Bytes, ∃ s, scanFile check f = some s := fun f =>
    scanBuffer_total hlt (Nat.lt_succ_self _)
  induction files with
  | nil => exact ⟨_, rfl⟩
  | cons f files ih =>
    obtain ⟨s, hs⟩ := hfile f
    cases files with
    | nil => exact ⟨_, by rw [scanFiles, hs]; rfl⟩
    | cons g rest =>
      rw [scanFiles, hs]
      obtain ⟨p, hp⟩ := ih
      cases h : s.fileEnd with
      | error => exact ⟨_, by simp only [Option.bind_some, h]; rfl⟩
      | blank => exact ⟨_, by simp only [Option.bind_some, h, hp]; rfl⟩

end Fuel

end CloudMQ.Recover
