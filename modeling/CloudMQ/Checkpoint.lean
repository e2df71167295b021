import CloudMQ.ConsumeQueues
import CloudMQ.Flush
import CloudMQ.Tables

/-!
The checkpoint: how far, by store timestamps, the consume queues are on the disk.

The dispatcher puts an entry and then notes its timestamp. The flush service notes the timestamp
before it commits the queues one after the other, sets it again afterwards, and writes the page;
others write the page as well. A commit works on one file of a queue, so that a try may leave
files behind.
-/

namespace CloudMQ.Checkpoint

open CloudMQ.Utf8 CloudMQ.Tables CloudMQ.Segment CloudMQ.Chain CloudMQ.Units CloudMQ.Flush
open CloudMQ.ConsumeQueues CloudMQ.Runs

/-! ### The checkpoint -/

structure StoreCheckpoint where
  physicMsgTimestamp : ℤ := 0
  logicsMsgTimestamp : ℤ := 0
  indexMsgTimestamp : ℤ := 0

/-- Three seconds back, for the precision of the times. -/
def StoreCheckpoint.getMinTimestamp (c : StoreCheckpoint) : ℤ :=
  let min := min c.physicMsgTimestamp c.logicsMsgTimestamp - 1000 * 3
  if min < 0 then 0 else min

/-! ### The store -/

structure MessageStoreConfig where
  mapedFileSizeConsumeQueue : ℕ
  size_pos : 0 < mapedFileSizeConsumeQueue
  size_dvd : CQStoreUnitSize ∣ mapedFileSizeConsumeQueue
  flushConsumeQueueLeastPages : ℤ
  flushConsumeQueueThoroughInterval : ℤ

def RetryTimesOver : ℕ := 3

abbrev Key := Text × Int32

/-- A run of `doFlush`: the queues that are left, the tries on the first of them and the answer of
the last one. To know what it achieves: how many messages had been dispatched when it began,
whether a try found the first queue with nothing to flush before its last file, and whether there
was such a try for every queue before. -/
structure DoFlush where
  retryTimes : ℕ
  flushConsumeQueueLeastPages : ℤ
  logicsMsgTimestamp : ℤ
  queues : List Key
  i : ℕ := 0
  result : Bool := false
  begun : ℕ
  reached : Bool := false
  covering : Bool := true

inductive Stage
  | waiting
  | committing (r : DoFlush)
  | writing

/-- A message whose entry was put: its queue, the end of the entry and the store timestamp. -/
structure Dispatched where
  key : Key
  entryEnd : ℕ
  storeTimestamp : ℤ

/-- The queues, the checkpoint in memory and on the disk, the dispatcher (a timestamp it has still
to set) and the flush service; the messages dispatched, the latest timestamp, and how many of the
messages a run of `doFlush` that met all of their queues' files has covered. -/
structure Store where
  consumeQueueTable : Table Key ConsumeQueue
  storeCheckpoint : StoreCheckpoint
  disk : StoreCheckpoint
  dispatching : Option ℤ
  stage : Stage
  lastFlushTimestamp : ℤ
  dispatched : List Dispatched
  latest : ℤ
  covered : ℕ

def newStore : Store := ⟨∅, {}, {}, none, .waiting, 0, [], 0, 0⟩

inductive Action
  | putMessagePostionInfoWrapper (key : Key) (writeable : Bool) (created : ℕ → Bool) (u : CQUnit)
      (cqOffset : ℕ) (storeTimestamp : ℤ)
  | setLogicsMsgTimestamp
  | setPhysicMsgTimestamp (timestamp : ℤ)
  | setIndexMsgTimestamp (timestamp : ℤ)
  | doFlush (retryTimes : ℕ) (currentTimeMillis : ℤ) (walk : List Key)
  | commit
  | nextQueue
  | commitOther (key : Key)
  | setAgain
  | writePage
  | flushCheckpoint

variable (cfg : MessageStoreConfig)

def findConsumeQueue (key : Key) (table : Table Key ConsumeQueue) : ConsumeQueue :=
  (table.lookup key).getD (newQueue cfg.mapedFileSizeConsumeQueue cfg.size_pos)

/-- The entry was not there before and has been put. -/
def isPut (u : CQUnit) (cq : ConsumeQueue) (result : Bool) : Bool :=
  result && decide (cq.maxPhysicOffset.toInt < u.offset.toInt)

/-- The start of the last file. -/
def lastStart (q : MapedFileQueue (List CQUnit)) : ℕ :=
  (q.mapedFiles.getLast?.map (·.fileFromOffset)).getD 0

/-- What `doFlush` reads before it commits. -/
def beginDoFlush (retryTimes : ℕ) (currentTimeMillis : ℤ) (walk : List Key) (s : Store) : Store :=
  let leastPages := if retryTimes = RetryTimesOver then 0 else cfg.flushConsumeQueueLeastPages
  let thorough := s.lastFlushTimestamp + cfg.flushConsumeQueueThoroughInterval ≤ currentTimeMillis
  { s with
    lastFlushTimestamp := if thorough then currentTimeMillis else s.lastFlushTimestamp
    stage := .committing {
      retryTimes := retryTimes
      flushConsumeQueueLeastPages := if thorough then 0 else leastPages
      logicsMsgTimestamp := if thorough then s.storeCheckpoint.logicsMsgTimestamp else 0
      queues := order walk s.consumeQueueTable
      begun := s.dispatched.length } }

def commitQueue (leastPages : ℤ) (cq : ConsumeQueue) : ConsumeQueue :=
  { cq with mapedFileQueue := cq.mapedFileQueue.commit leastPages }

def step (s : Store) : Action → Option Store
  | .putMessagePostionInfoWrapper key writeable created u cqOffset storeTimestamp =>
    match s.dispatching with
    | some _ => none
    | none =>
      let cq := findConsumeQueue cfg key s.consumeQueueTable
      let r := cq.putMessagePostionInfoWrapper writeable created u cqOffset
      some { s with
        consumeQueueTable := s.consumeQueueTable.insert key r.1
        dispatching := if r.2 then some storeTimestamp else none
        dispatched := if isPut u cq r.2 then
            s.dispatched ++ [⟨key, r.1.mapedFileQueue.getMaxOffset, storeTimestamp⟩]
          else s.dispatched
        latest := storeTimestamp }
  | .setLogicsMsgTimestamp =>
    s.dispatching.map fun storeTimestamp =>
      { s with
        dispatching := none
        storeCheckpoint := { s.storeCheckpoint with logicsMsgTimestamp := storeTimestamp } }
  | .setPhysicMsgTimestamp timestamp =>
    some { s with storeCheckpoint := { s.storeCheckpoint with physicMsgTimestamp := timestamp } }
  | .setIndexMsgTimestamp timestamp =>
    some { s with storeCheckpoint := { s.storeCheckpoint with indexMsgTimestamp := timestamp } }
  | .doFlush retryTimes currentTimeMillis walk =>
    match s.stage with
    | .waiting => some (beginDoFlush cfg retryTimes currentTimeMillis walk s)
    | _ => none
  | .commit =>
    match s.stage with
    | .committing r =>
      match r.queues with
      | [] => none
      | key :: _ =>
        if r.i < r.retryTimes ∧ ¬ r.result then
          (s.consumeQueueTable.lookup key).map fun cq =>
            let cq' := commitQueue r.flushConsumeQueueLeastPages cq
            { s with
              consumeQueueTable := s.consumeQueueTable.insert key cq'
              stage := .committing { r with
                i := r.i + 1
                result := cq'.mapedFileQueue.committedWhere = cq.mapedFileQueue.committedWhere
                reached := r.reached ||
                  decide (lastStart cq.mapedFileQueue ≤ cq.mapedFileQueue.committedWhere) } }
        else none
    | _ => none
  | .nextQueue =>
    match s.stage with
    | .committing r =>
      match r.queues with
      | [] => none
      | _ :: queues =>
        if r.i < r.retryTimes ∧ ¬ r.result then none
        else some { s with stage := .committing { r with
          queues := queues
          i := 0
          result := false
          reached := false
          covering := r.covering && r.reached } }
    | _ => none
  -- a queue that was created since the walk began may be met as well
  | .commitOther key =>
    match s.stage with
    | .committing r =>
      (s.consumeQueueTable.lookup key).map fun cq =>
        { s with consumeQueueTable :=
            s.consumeQueueTable.insert key (commitQueue r.flushConsumeQueueLeastPages cq) }
    | _ => none
  | .setAgain =>
    match s.stage with
    | .committing r =>
      if r.queues ≠ [] then none
      else if r.flushConsumeQueueLeastPages ≠ 0 then some { s with stage := .waiting }
      else some { s with
        storeCheckpoint := if 0 < r.logicsMsgTimestamp then
            { s.storeCheckpoint with logicsMsgTimestamp := r.logicsMsgTimestamp }
          else s.storeCheckpoint
        stage := .writing
        covered := if r.covering then max s.covered r.begun else s.covered }
    | _ => none
  | .writePage =>
    match s.stage with
    | .writing => some { s with disk := s.storeCheckpoint, stage := .waiting }
    | _ => none
  | .flushCheckpoint => some { s with disk := s.storeCheckpoint }

/-! ### What is to hold -/

/-- The entry that ends there is on the disk. -/
def Forced (q : MapedFileQueue (List CQUnit)) (entryEnd : ℕ) : Prop :=
  ∃ f ∈ q.mapedFiles, f.fileFromOffset + CQStoreUnitSize ≤ entryEnd ∧
    entryEnd ≤ f.fileFromOffset + f.forced

def OnDisk (s : Store) (d : Dispatched) : Prop :=
  ∃ cq, s.consumeQueueTable.lookup d.key = some cq ∧ Forced cq.mapedFileQueue d.entryEnd

/-- **The checkpoint is sound**: what is not later than its time is on the disk, and so is all that
was dispatched before a message that is not later. -/
def Sound (s : Store) : Prop :=
  (∀ d ∈ s.dispatched, d.storeTimestamp ≤ s.disk.getMinTimestamp → OnDisk s d) ∧
    ∀ before d after, s.dispatched = before ++ d :: after →
      d.storeTimestamp ≤ s.disk.getMinTimestamp → ∀ e ∈ before, OnDisk s e

/-- Store timestamps are times, and do not go back. -/
def Ordered (s : Store) : Action → Prop
  | .putMessagePostionInfoWrapper _ _ _ _ _ storeTimestamp =>
    0 < storeTimestamp ∧ s.latest ≤ storeTimestamp
  | _ => True

/-- The page is written with a time such that what is not later had been dispatched when a covering
run of `doFlush` began. -/
def Covered (s : Store) : Action → Prop
  | .writePage | .flushCheckpoint => ∀ d ∈ s.dispatched.drop s.covered,
      s.storeCheckpoint.getMinTimestamp < d.storeTimestamp
  | _ => True

/-! ### One queue -/

section Queue

variable {q q' q'' : MapedFileQueue (List CQUnit)} {f : MapedFile (List CQUnit)} {e : ℕ}

/-- Files are written unit by unit, and none is shut down. -/
structure Ready (q : MapedFileQueue (List CQUnit)) : Prop extends FlushInv q where
  available : ∀ f ∈ q.mapedFiles, f.available
  dvd : CQStoreUnitSize ∣ q.mapedFileSize
  wrote : ∀ f ∈ q.mapedFiles, CQStoreUnitSize ∣ f.wrotePostion

/-- The entry that ends there has been written. -/
def Held (q : MapedFileQueue (List CQUnit)) (entryEnd : ℕ) : Prop :=
  ∃ f ∈ q.mapedFiles, f.fileFromOffset + CQStoreUnitSize ≤ entryEnd ∧
    entryEnd ≤ f.fileFromOffset + f.wrotePostion

/-- Every file is still there, and no less of it is written or forced. -/
def Grows (q q' : MapedFileQueue (List CQUnit)) : Prop :=
  ∀ f ∈ q.mapedFiles, ∃ f' ∈ q'.mapedFiles, f'.fileFromOffset = f.fileFromOffset ∧
    f.wrotePostion ≤ f'.wrotePostion ∧ f.forced ≤ f'.forced

lemma Grows.refl (q : MapedFileQueue (List CQUnit)) : Grows q q :=
  fun f hf => ⟨f, hf, rfl, le_rfl, le_rfl⟩

lemma Grows.trans (h : Grows q q') (h' : Grows q' q'') : Grows q q'' := by
  intro f hf
  obtain ⟨f', hf', h1, h2, h3⟩ := h f hf
  obtain ⟨f'', hf'', h4, h5, h6⟩ := h' f' hf'
  exact ⟨f'', hf'', h4.trans h1, h2.trans h5, h3.trans h6⟩

lemma Grows.forced (h : Grows q q') (he : Forced q e) : Forced q' e := by
  obtain ⟨f, hf, h1, h2⟩ := he
  obtain ⟨f', hf', h3, -, h5⟩ := h f hf
  exact ⟨f', hf', by omega, by omega⟩

lemma Grows.held (h : Grows q q') (he : Held q e) : Held q' e := by
  obtain ⟨f, hf, h1, h2⟩ := he
  obtain ⟨f', hf', h3, h4, -⟩ := h f hf
  exact ⟨f', hf', by omega, by omega⟩

/-! ### Putting an entry -/

lemma fillPreBlank_eq {size n : ℕ} (hroom : f.wrotePostion + CQStoreUnitSize * n ≤ size) :
    ∃ mem, fillPreBlank size n f =
      { f with mappedByteBuffer := mem, wrotePostion := f.wrotePostion + CQStoreUnitSize * n } := by
  induction n generalizing f with
  | zero => exact ⟨f.mappedByteBuffer, rfl⟩
  | succ n ih =>
    rw [Nat.mul_succ] at hroom
    have happ : appendUnit CQStoreUnitSize size preBlank f = some
        { f with
          mappedByteBuffer := f.mappedByteBuffer.set (f.wrotePostion / CQStoreUnitSize) preBlank
          wrotePostion := f.wrotePostion + CQStoreUnitSize } := by
      rw [appendUnit, MapedFile.append, if_pos (by omega)]
    rw [fillPreBlank, happ, Option.getD_some]
    obtain ⟨mem, hmem⟩ := ih (f := { f with
      mappedByteBuffer := f.mappedByteBuffer.set (f.wrotePostion / CQStoreUnitSize) preBlank
      wrotePostion := f.wrotePostion + CQStoreUnitSize }) (by simp only; omega)
    refine ⟨mem, hmem.trans ?_⟩
    simp only [MapedFile.mk.injEq, true_and, and_true]
    rw [Nat.mul_succ]
    omega

/-- The file an entry goes to still has room for it after blank entries. -/
lemma preFilled_eq {size : ℕ} (hdvd : CQStoreUnitSize ∣ size)
    (hwrote : CQStoreUnitSize ∣ f.wrotePostion) (hlt : f.wrotePostion < size) (cqOffset : ℕ) :
    ∃ mem n, ConsumeQueue.preFilled size f cqOffset =
        { f with mappedByteBuffer := mem, wrotePostion := f.wrotePostion + CQStoreUnitSize * n } ∧
      f.wrotePostion + CQStoreUnitSize * n + CQStoreUnitSize ≤ size := by
  have hroom : ∀ w, CQStoreUnitSize ∣ w → w < size → w + CQStoreUnitSize ≤ size := by
    intro w hw hlt
    obtain ⟨a, rfl⟩ := hw
    obtain ⟨b, rfl⟩ := hdvd
    have := Nat.lt_of_mul_lt_mul_left hlt
    rw [← Nat.mul_succ]
    exact Nat.mul_le_mul_left _ this
  rw [ConsumeQueue.preFilled]
  split_ifs with hpre
  · have hzero := hpre.2.2
    have hmod := Nat.mod_lt (cqOffset * CQStoreUnitSize) (Nat.zero_lt_of_lt hlt)
    have hdiv := Nat.mul_div_le (cqOffset * CQStoreUnitSize % size) CQStoreUnitSize
    have hfill : f.wrotePostion +
        CQStoreUnitSize * (cqOffset * CQStoreUnitSize % size / CQStoreUnitSize) < size := by
      omega
    obtain ⟨mem, hmem⟩ := fillPreBlank_eq hfill.le
    exact ⟨mem, _, hmem, hroom _ (Nat.dvd_add hwrote (Nat.dvd_mul_right _ _)) hfill⟩
  · exact ⟨f.mappedByteBuffer, 0, rfl, hroom _ hwrote hlt⟩

lemma Ready.getLastMapedFile (h : Ready q) {startOffset : ℕ} {fresh : Option (List CQUnit)}
    (hq : q.getLastMapedFile startOffset fresh = (some f, q')) :
    Ready q' ∧ Grows q q' ∧ q'.mapedFiles.getLast? = some f ∧
      f.wrotePostion < q'.mapedFileSize ∧ q'.mapedFileSize = q.mapedFileSize := by
  have hflush := h.toFlushInv.getLastMapedFile startOffset fresh
  rw [hq] at hflush
  obtain ⟨hlast, hsize, hlt, rfl | ⟨-, hfiles, hzero, havail, -⟩⟩ :=
    getLastMapedFile_cases h.chained hq
  · exact ⟨h, Grows.refl _, hlast, hlt, rfl⟩
  · refine ⟨⟨hflush, ?_, hsize ▸ h.dvd, ?_⟩, ?_, hlast, hsize ▸ hlt, hsize⟩
    · intro g hg
      rw [hfiles] at hg
      rcases List.mem_append.mp hg with hg | hg
      · exact h.available g hg
      · rw [List.mem_singleton.mp hg]
        exact havail
    · intro g hg
      rw [hfiles] at hg
      rcases List.mem_append.mp hg with hg | hg
      · exact h.wrote g hg
      · rw [List.mem_singleton.mp hg, hzero]
        exact Nat.dvd_zero _
    · intro g hg
      exact ⟨g, by rw [hfiles]; exact List.mem_append_left _ hg, rfl, le_rfl, le_rfl⟩

/-- The last file is filled further. -/
lemma Ready.setLast (h : Ready q) (hlast : q.mapedFiles.getLast? = some f) (mem : List CQUnit)
    {n : ℕ} (hroom : f.wrotePostion + CQStoreUnitSize * n ≤ q.mapedFileSize) :
    Ready (q.setLast { f with
        mappedByteBuffer := mem, wrotePostion := f.wrotePostion + CQStoreUnitSize * n }) ∧
      Grows q (q.setLast { f with
        mappedByteBuffer := mem, wrotePostion := f.wrotePostion + CQStoreUnitSize * n }) := by
  have hmem := List.mem_of_getLast? hlast
  refine ⟨⟨h.toFlushInv.setLast hlast rfl (Nat.le_add_right _ _) hroom rfl rfl rfl,
    forall_mem_setLast h.available (h.available f hmem), h.dvd, forall_mem_setLast h.wrote ?_⟩, ?_⟩
  · exact Nat.dvd_add (h.wrote f hmem) (Nat.dvd_mul_right _ _)
  · intro g hg
    rw [← List.dropLast_append_getLast? f hlast] at hg
    rcases List.mem_append.mp hg with hg | hg
    · exact ⟨g, List.mem_append_left _ hg, rfl, le_rfl, le_rfl⟩
    · rw [List.mem_singleton.mp hg]
      exact ⟨_, List.mem_append_right _ (List.mem_singleton_self _), rfl, Nat.le_add_right _ _,
        le_rfl⟩

/-- What a put does to a queue: it keeps its files, and holds the entry if it was put. -/
structure Put (u : CQUnit) (cq : ConsumeQueue) (r : ConsumeQueue × Bool) : Prop where
  ready : Ready r.1.mapedFileQueue
  grows : Grows cq.mapedFileQueue r.1.mapedFileQueue
  failed : r.2 = false → r.1 = cq
  held : isPut u cq r.2 = true → Held r.1.mapedFileQueue r.1.mapedFileQueue.getMaxOffset

lemma Put.refl {cq : ConsumeQueue} (h : Ready cq.mapedFileQueue) {u : CQUnit} {result : Bool}
    (hput : isPut u cq result = false) : Put u cq (cq, result) :=
  ⟨h, Grows.refl _, fun _ => rfl, fun h' => by rw [hput] at h'; simp at h'⟩

lemma put_spec {cq : ConsumeQueue} (h : Ready cq.mapedFileQueue) (created : Bool) (u : CQUnit)
    (cqOffset : ℕ) : Put u cq (cq.putMessagePostionInfo created u cqOffset) := by
  rw [ConsumeQueue.putMessagePostionInfo]
  by_cases hle : u.offset.toInt ≤ cq.maxPhysicOffset.toInt
  · rw [if_pos hle]
    exact Put.refl h (by simp [isPut, hle])
  rw [if_neg hle]
  simp only
  split
  · next q hq =>
    obtain ⟨rfl, -⟩ := getLastMapedFile_none hq
    exact Put.refl h (by simp [isPut])
  · next f q hq =>
    obtain ⟨hready, hgrows, hlast, hlt, hsize⟩ := h.getLastMapedFile hq
    rw [← hsize]
    have hmem := List.mem_of_getLast? hlast
    obtain ⟨mem, n, hpre, hroom⟩ := preFilled_eq hready.dvd (hready.wrote f hmem) hlt cqOffset
    rw [hpre, appendUnit, MapedFile.append, if_pos hroom]
    -- the blank entries and the entry fill the last file together
    have hfill : f.wrotePostion + CQStoreUnitSize * (n + 1) =
        f.wrotePostion + CQStoreUnitSize * n + CQStoreUnitSize := by
      rw [Nat.mul_succ]
      omega
    obtain ⟨hset, hset'⟩ := hready.setLast hlast (mem.set
      ((f.wrotePostion + CQStoreUnitSize * n) / CQStoreUnitSize) u) (n := n + 1) (hfill ▸ hroom)
    rw [hfill] at hset hset'
    refine ⟨hset, hgrows.trans hset', by simp, fun _ => ?_⟩
    refine ⟨_, List.mem_append_right _ (List.mem_singleton_self _), ?_, ?_⟩
    · simp only [MapedFileQueue.getMaxOffset, MapedFileQueue.setLast, List.getLast?_append,
        List.getLast?_singleton, Option.some_or]
      omega
    · simp only [MapedFileQueue.getMaxOffset, MapedFileQueue.setLast, List.getLast?_append,
        List.getLast?_singleton, Option.some_or]
      omega

lemma putRetrying_spec {cq : ConsumeQueue} (h : Ready cq.mapedFileQueue) (created : ℕ → Bool)
    (u : CQUnit) (cqOffset n : ℕ) : Put u cq (cq.putRetrying created u cqOffset n) := by
  induction n with
  | zero => exact Put.refl h (by simp [isPut])
  | succ n ih =>
    rw [ConsumeQueue.putRetrying]
    have hput := put_spec h (created n) u cqOffset
    split
    · next cq' heq =>
      rw [heq] at hput
      exact hput
    · next cq' heq =>
      rw [heq] at hput
      obtain rfl : cq' = cq := hput.failed rfl
      exact ih

lemma putWrapper_spec {cq : ConsumeQueue} (h : Ready cq.mapedFileQueue) (writeable : Bool)
    (created : ℕ → Bool) (u : CQUnit) (cqOffset : ℕ) :
    Put u cq (cq.putMessagePostionInfoWrapper writeable created u cqOffset) := by
  rw [ConsumeQueue.putMessagePostionInfoWrapper]
  split_ifs
  · exact putRetrying_spec h created u cqOffset _
  · exact Put.refl h (by simp [isPut])

/-! ### Committing a queue -/

/-- Everything that is written is on the disk. -/
def AllForced (q : MapedFileQueue (List CQUnit)) : Prop :=
  ∀ f ∈ q.mapedFiles, f.forced = f.wrotePostion

lemma AllForced.forced (h : AllForced q) (he : Held q e) : Forced q e := by
  obtain ⟨f, hf, h1, h2⟩ := he
  exact ⟨f, hf, h1, by rw [h f hf]; exact h2⟩

lemma commit_keeps (size : ℕ) (f : MapedFile (List CQUnit)) (n : ℤ) :
    (f.commit size n).fileFromOffset = f.fileFromOffset ∧
      (f.commit size n).wrotePostion = f.wrotePostion ∧ f.forced ≤ (f.commit size n).forced := by
  rw [MapedFile.commit]
  split_ifs
  · exact ⟨rfl, rfl, le_max_left _ _⟩
  · exact ⟨rfl, rfl, le_rfl⟩
  · exact ⟨rfl, rfl, le_rfl⟩

/-- With no number of pages asked for, a commit forces everything. -/
lemma forced_commit_zero {size : ℕ} (ha : f.available)
    (hp : f.committedPosition ≤ f.forced ∧ f.forced ≤ f.wrotePostion) :
    (f.commit size 0).forced = f.wrotePostion := by
  rw [MapedFile.commit]
  split_ifs with hable
  · simp only
    omega
  · have hcommitted : ¬ f.committedPosition < f.wrotePostion := fun hlt =>
      hable (by simp [MapedFile.isAbleToFlush, hlt])
    omega

lemma Ready.commit (h : Ready q) (n : ℤ) : Ready (q.commit n) ∧ Grows q (q.commit n) := by
  have hflush := (h.toFlushInv.commit
    (fun f hf => h.available f (List.mem_of_getElem? hf)) n).1
  revert hflush
  rw [MapedFileQueue.commit]
  split
  · exact fun _ => ⟨h, Grows.refl q⟩
  · next f hf =>
    intro hflush
    have hmem := List.mem_of_getElem? hf
    obtain ⟨hfrom, hwrote, hforced⟩ := commit_keeps q.mapedFileSize f n
    refine ⟨⟨hflush, ?_, h.dvd, ?_⟩, ?_⟩
    · intro g hg
      rcases List.mem_or_eq_of_mem_set hg with hg | rfl
      · exact h.available g hg
      · rw [commit_available]
        exact h.available f hmem
    · intro g hg
      rcases List.mem_or_eq_of_mem_set hg with hg | rfl
      · exact h.wrote g hg
      · rw [hwrote]
        exact h.wrote f hmem
    · intro g hg
      obtain ⟨j, hj⟩ := List.getElem?_of_mem hg
      by_cases hidx : q.commitIndex = j
      · obtain rfl := Option.some.inj (hf.symm.trans (hidx ▸ hj))
        refine ⟨f.commit q.mapedFileSize n, ?_, hfrom, hwrote.ge, hforced⟩
        exact List.mem_set (List.getElem?_eq_some_iff.mp hf).1 _
      · refine ⟨g, ?_, rfl, le_rfl, le_rfl⟩
        apply List.mem_of_getElem? (i := j)
        rw [List.getElem?_set_ne hidx, hj]

/-- A file before the last one starts a file's length before it or earlier. -/
lemma end_le_lastStart (h : Chained q) (hf : f ∈ q.mapedFiles)
    (hne : q.mapedFiles.getLast? ≠ some f) :
    f.fileFromOffset + q.mapedFileSize ≤ lastStart q := by
  obtain ⟨i, hi⟩ := List.getElem?_of_mem hf
  have hlt := (List.getElem?_eq_some_iff.mp hi).1
  obtain ⟨last, hlast⟩ : ∃ last, q.mapedFiles.getLast? = some last :=
    ⟨_, List.getLast?_eq_some_getLast (List.ne_nil_of_mem hf)⟩
  have hidx : q.mapedFiles[q.mapedFiles.length - 1]? = some last := by
    rw [← hlast, List.getLast?_eq_getElem?]
  have hi' : i ≠ q.mapedFiles.length - 1 := by
    rintro rfl
    exact hne (by rw [List.getLast?_eq_getElem?, hi])
  rw [lastStart, hlast]
  exact end_le_start h (show i < q.mapedFiles.length - 1 by omega) hi hidx

/-- If the last file is not the one that is committed, then `committedWhere` stands at its end. -/
lemma Ready.forced_of_last (h : Ready q) {g : MapedFile (List CQUnit)} {j : ℕ}
    (hf : q.mapedFiles[q.commitIndex]? = some f) (hidx : q.commitIndex ≠ j)
    (hj : q.mapedFiles[j]? = some g) (hlast : q.mapedFiles.getLast? = some g)
    (hstart : lastStart q ≤ q.committedWhere) : g.forced = g.wrotePostion := by
  have hmem := List.mem_of_getElem? hj
  have hle := wrote_le h.chained hmem
  have hp := h.positions g hmem
  rw [lastStart, hlast, Option.map_some, Option.getD_some] at hstart
  cases hfiles : q.mapedFiles with
  | nil => simp [hfiles] at hj
  | cons first rest =>
    have hlast' : q.mapedFiles[q.mapedFiles.length - 1]? = some g := by
      rw [← hlast, List.getLast?_eq_getElem?]
    have hstart₁ := start_of_index h.chained hfiles hj
    have hstart₂ := start_of_index h.chained hfiles hlast'
    have hj' : j = q.mapedFiles.length - 1 :=
      Nat.eq_of_mul_eq_mul_right q.size_pos (by omega)
    have hlen := (List.getElem?_eq_some_iff.mp hf).1
    rcases commitIndex_spec h.chained h.le_max hfiles with ⟨f', hf', -, hlt⟩ | ⟨-, hlt | hend⟩
    · -- the file that `committedWhere` lies in would come before the last one
      obtain rfl := Option.some.inj (hf.symm.trans hf')
      have := end_le_start h.chained (show q.commitIndex < j by omega) hf hj
      omega
    · omega
    · have hend' : g.fileFromOffset + q.mapedFileSize =
          first.fileFromOffset + q.mapedFiles.length * q.mapedFileSize := by
        rw [hstart₂, Nat.add_assoc, ← Nat.succ_mul]
        congr 2
        omega
      rcases h.reached g hmem with h1 | h1 <;> omega

/-- **A try that covers a queue**: with nothing to flush before the last file, a commit leaves
nothing to flush. -/
lemma Ready.allForced_commit (h : Ready q) (hstart : lastStart q ≤ q.committedWhere) :
    AllForced (q.commit 0) := by
  have hflush := h.toFlushInv
  -- what lies before the last file was committed to its end
  have hbefore : ∀ f ∈ q.mapedFiles, q.mapedFiles.getLast? ≠ some f →
      f.forced = f.wrotePostion := by
    intro f hf hne
    have hend := end_le_lastStart h.chained hf hne
    have hle := wrote_le h.chained hf
    have hp := h.positions f hf
    rcases h.reached f hf with h1 | h1 <;> omega
  rw [MapedFileQueue.commit]
  split
  · next hnone =>
    intro f hf
    cases hfiles : q.mapedFiles with
    | nil => simp [hfiles] at hf
    | cons first rest =>
      rcases commitIndex_spec h.chained h.le_max hfiles with ⟨f', hf', -⟩ | ⟨hzero, -⟩
      · rw [hnone] at hf'
        simp at hf'
      · rw [hzero, hfiles] at hnone
        simp at hnone
  · next f hf =>
    have hmem := List.mem_of_getElem? hf
    intro g hg
    obtain ⟨j, hj⟩ := List.getElem?_of_mem hg
    by_cases hidx : q.commitIndex = j
    · obtain rfl : f.commit q.mapedFileSize 0 = g := by
        rw [← hidx, List.getElem?_set_self (List.getElem?_eq_some_iff.mp hf).1] at hj
        exact Option.some.inj hj
      rw [(commit_keeps q.mapedFileSize f 0).2.1]
      exact forced_commit_zero (h.available f hmem) (h.positions f hmem)
    · rw [List.getElem?_set_ne hidx] at hj
      by_cases hlast : q.mapedFiles.getLast? = some g
      · exact h.forced_of_last hf hidx hj hlast hstart
      · exact hbefore g (List.mem_of_getElem? hj) hlast

end Queue

/-! ### The invariant -/

variable {cfg} {s s' : Store}

/-- What a run of `doFlush` has achieved so far, if it asks for no number of pages. -/
def Running (s : Store) : Stage → Prop
  | .committing r => r.begun ≤ s.dispatched.length ∧ r.logicsMsgTimestamp ≤ s.latest ∧
      (r.flushConsumeQueueLeastPages = 0 → ∀ d ∈ s.dispatched.take r.begun,
        (r.covering = true → d.key ∉ r.queues → OnDisk s d) ∧
        (r.reached = true → r.queues.head? = some d.key → OnDisk s d))
  | _ => True

structure Inv (s : Store) : Prop where
  ready : ∀ key cq, s.consumeQueueTable.lookup key = some cq → Ready cq.mapedFileQueue
  held : ∀ d ∈ s.dispatched, ∃ cq, s.consumeQueueTable.lookup d.key = some cq ∧
    Held cq.mapedFileQueue d.entryEnd
  times : ∀ d ∈ s.dispatched, 0 < d.storeTimestamp ∧ d.storeTimestamp ≤ s.latest
  ordered : s.dispatched.Pairwise fun d e => d.storeTimestamp ≤ e.storeTimestamp
  latest : 0 ≤ s.latest
  memory : s.storeCheckpoint.logicsMsgTimestamp ≤ s.latest
  diskLogics : s.disk.logicsMsgTimestamp ≤ s.latest
  dispatching : ∀ t ∈ s.dispatching, t ≤ s.latest
  covered_le : s.covered ≤ s.dispatched.length
  covered : ∀ d ∈ s.dispatched.take s.covered, OnDisk s d
  disk : ∀ d ∈ s.dispatched, d.storeTimestamp ≤ s.disk.getMinTimestamp → OnDisk s d
  running : Running s s.stage

/-- Queues stay, and grow. -/
def TableGrows (table table' : Table Key ConsumeQueue) : Prop :=
  ∀ key cq, table.lookup key = some cq → ∃ cq', table'.lookup key = some cq' ∧
    Grows cq.mapedFileQueue cq'.mapedFileQueue

lemma OnDisk.of_grows {d : Dispatched}
    (hgrows : TableGrows s.consumeQueueTable s'.consumeQueueTable) (h : OnDisk s d) :
    OnDisk s' d := by
  obtain ⟨cq, hcq, hforced⟩ := h
  obtain ⟨cq', hcq', hg⟩ := hgrows d.key cq hcq
  exact ⟨cq', hcq', hg.forced hforced⟩

lemma tableGrows_insert {table : Table Key ConsumeQueue} {key : Key} {cq' : ConsumeQueue}
    (h : ∀ cq, table.lookup key = some cq → Grows cq.mapedFileQueue cq'.mapedFileQueue) :
    TableGrows table (table.insert key cq') := by
  intro k cq hk
  rw [lookup_insert_ite]
  split_ifs with hkey
  · subst hkey
    exact ⟨cq', rfl, h cq hk⟩
  · exact ⟨cq, hk, Grows.refl _⟩

/-- A queue is put back that has grown. -/
lemma Inv.insert (h : Inv s) (key : Key) {cq' : ConsumeQueue} (hready : Ready cq'.mapedFileQueue)
    (hgrows : ∀ cq, s.consumeQueueTable.lookup key = some cq →
      Grows cq.mapedFileQueue cq'.mapedFileQueue) :
    Inv { s with consumeQueueTable := s.consumeQueueTable.insert key cq' } := by
  have htable := tableGrows_insert hgrows
  have hkeep : ∀ d, OnDisk s d →
      OnDisk { s with consumeQueueTable := s.consumeQueueTable.insert key cq' } d :=
    fun d hd => hd.of_grows htable
  refine ⟨?_, ?_, h.times, h.ordered, h.latest, h.memory, h.diskLogics, h.dispatching,
    h.covered_le, fun d hd => hkeep d (h.covered d hd), fun d hd ht => hkeep d (h.disk d hd ht), ?_⟩
  · intro k cq hk
    rw [lookup_insert_ite] at hk
    split_ifs at hk
    · obtain rfl := Option.some.inj hk
      exact hready
    · exact h.ready k cq hk
  · intro d hd
    obtain ⟨cq, hcq, hheld⟩ := h.held d hd
    obtain ⟨cq'', hcq'', hg⟩ := htable d.key cq hcq
    exact ⟨cq'', hcq'', hg.held hheld⟩
  · have hrun := h.running
    change Running _ s.stage
    generalize s.stage = stage at hrun
    cases stage with
    | committing r =>
      refine ⟨hrun.1, hrun.2.1, fun hzero d hd => ?_⟩
      obtain ⟨h1, h2⟩ := hrun.2.2 hzero d hd
      exact ⟨fun hc hq => hkeep d (h1 hc hq), fun hr hq => hkeep d (h2 hr hq)⟩
    | _ => trivial

lemma Inv.setStage (h : Inv s) (stage : Stage) (hrun : Running s stage) :
    Inv { s with stage := stage } := by
  refine ⟨h.ready, h.held, h.times, h.ordered, h.latest, h.memory, h.diskLogics, h.dispatching,
    h.covered_le, h.covered, h.disk, ?_⟩
  cases stage <;> exact hrun

/-- The time of the page is before the latest message. -/
lemma getMinTimestamp_lt {c : StoreCheckpoint} {t : ℤ} (hpos : 0 < t)
    (h : c.logicsMsgTimestamp ≤ t) : c.getMinTimestamp < t := by
  rw [StoreCheckpoint.getMinTimestamp]
  have := min_le_right c.physicMsgTimestamp c.logicsMsgTimestamp
  split_ifs <;> omega

/-- **A message more.** It is later than the page. -/
lemma Inv.dispatch (h : Inv s) {d : Dispatched} (hpos : 0 < d.storeTimestamp)
    (hle : s.latest ≤ d.storeTimestamp)
    (hheld : ∃ cq, s.consumeQueueTable.lookup d.key = some cq ∧ Held cq.mapedFileQueue d.entryEnd) :
    Inv { s with dispatched := s.dispatched ++ [d], latest := d.storeTimestamp } := by
  have htake : ∀ n ≤ s.dispatched.length, (s.dispatched ++ [d]).take n = s.dispatched.take n :=
    fun n hn => List.take_append_of_le_length hn
  refine ⟨h.ready, ?_, ?_, ?_, hpos.le, h.memory.trans hle, h.diskLogics.trans hle,
    fun t ht => (h.dispatching t ht).trans hle, ?_, ?_, ?_, ?_⟩
  · intro e he
    rcases List.mem_append.mp he with he | he
    · exact h.held e he
    · rw [List.mem_singleton.mp he]
      exact hheld
  · intro e he
    rcases List.mem_append.mp he with he | he
    · exact ⟨(h.times e he).1, (h.times e he).2.trans hle⟩
    · rw [List.mem_singleton.mp he]
      exact ⟨hpos, le_rfl⟩
  · rw [List.pairwise_append]
    refine ⟨h.ordered, List.pairwise_singleton _ _, fun e he e' he' => ?_⟩
    rw [List.mem_singleton.mp he']
    exact (h.times e he).2.trans hle
  · simp only [List.length_append, List.length_singleton]
    exact h.covered_le.trans (Nat.le_succ _)
  · intro e he
    simp only [htake _ h.covered_le] at he
    exact h.covered e he
  · intro e he ht
    rcases List.mem_append.mp he with he | he
    · exact h.disk e he ht
    · rw [List.mem_singleton.mp he] at ht
      exact absurd ht (not_le.mpr (getMinTimestamp_lt hpos (h.diskLogics.trans hle)))
  · have hrun := h.running
    change Running _ s.stage
    generalize s.stage = stage at hrun
    cases stage with
    | committing r =>
      refine ⟨?_, hrun.2.1.trans hle, fun hzero e he => ?_⟩
      · simp only [List.length_append, List.length_singleton]
        exact hrun.1.trans (Nat.le_succ _)
      · simp only [htake _ hrun.1] at he
        exact hrun.2.2 hzero e he
    | _ => trivial

/-- A dispatch step that puts no entry may still be later. -/
lemma Inv.setLatest (h : Inv s) {t : ℤ} (hle : s.latest ≤ t) : Inv { s with latest := t } := by
  refine ⟨h.ready, h.held, fun d hd => ⟨(h.times d hd).1, (h.times d hd).2.trans hle⟩, h.ordered,
    h.latest.trans hle, h.memory.trans hle, h.diskLogics.trans hle,
    fun t ht => (h.dispatching t ht).trans hle, h.covered_le, h.covered, h.disk, ?_⟩
  have hrun := h.running
  change Running _ s.stage
  generalize s.stage = stage at hrun
  cases stage with
  | committing r => exact ⟨hrun.1, hrun.2.1.trans hle, hrun.2.2⟩
  | _ => trivial

lemma Inv.setDispatching (h : Inv s) {t : Option ℤ} (ht : ∀ x ∈ t, x ≤ s.latest) :
    Inv { s with dispatching := t } := by
  refine ⟨h.ready, h.held, h.times, h.ordered, h.latest, h.memory, h.diskLogics, ht,
    h.covered_le, h.covered, h.disk, ?_⟩
  have hrun := h.running
  change Running _ s.stage
  generalize s.stage = stage at hrun
  cases stage <;> exact hrun

lemma Inv.setCheckpoint (h : Inv s) {c : StoreCheckpoint}
    (hc : c.logicsMsgTimestamp ≤ s.latest) : Inv { s with storeCheckpoint := c } := by
  refine ⟨h.ready, h.held, h.times, h.ordered, h.latest, hc, h.diskLogics, h.dispatching,
    h.covered_le, h.covered, h.disk, ?_⟩
  have hrun := h.running
  change Running _ s.stage
  generalize s.stage = stage at hrun
  cases stage <;> exact hrun

/-- **The page is written.** -/
lemma Inv.write (h : Inv s) (hcovered : ∀ d ∈ s.dispatched.drop s.covered,
    s.storeCheckpoint.getMinTimestamp < d.storeTimestamp) :
    Inv { s with disk := s.storeCheckpoint } := by
  refine ⟨h.ready, h.held, h.times, h.ordered, h.latest, h.memory, h.memory, h.dispatching,
    h.covered_le, h.covered, ?_, ?_⟩
  · intro d hd ht
    rw [← List.take_append_drop s.covered s.dispatched] at hd
    rcases List.mem_append.mp hd with hd | hd
    · exact h.covered d hd
    · exact absurd ht (not_le.mpr (hcovered d hd))
  · have hrun := h.running
    change Running _ s.stage
    generalize s.stage = stage at hrun
    cases stage <;> exact hrun

/-! ### Every step keeps it -/

lemma ready_newQueue :
    Ready (newQueue cfg.mapedFileSizeConsumeQueue cfg.size_pos).mapedFileQueue := by
  refine ⟨⟨?_, ?_, ?_, ?_, ?_⟩, ?_, cfg.size_dvd, ?_⟩
  · exact (tracked_newQueue cfg.size_pos cfg.size_dvd).chained
  all_goals simp [newQueue, Chain.empty]

lemma Inv.put (h : Inv s) {key : Key} {writeable : Bool} {created : ℕ → Bool} {u : CQUnit}
    {cqOffset : ℕ} {storeTimestamp : ℤ} (hpos : 0 < storeTimestamp)
    (hle : s.latest ≤ storeTimestamp)
    (hs : step cfg s (.putMessagePostionInfoWrapper key writeable created u cqOffset
      storeTimestamp) = some s') : Inv s' := by
  simp only [step] at hs
  split at hs
  · simp at hs
  obtain rfl := Option.some.inj hs
  have hready : Ready (findConsumeQueue cfg key s.consumeQueueTable).mapedFileQueue := by
    rw [findConsumeQueue]
    cases hcq : s.consumeQueueTable.lookup key with
    | none => exact ready_newQueue
    | some cq => exact h.ready key cq hcq
  have hspec := putWrapper_spec hready writeable created u cqOffset
  revert hspec
  generalize ConsumeQueue.putMessagePostionInfoWrapper writeable created u cqOffset
    (findConsumeQueue cfg key s.consumeQueueTable) = r
  intro hspec
  have hinsert := h.insert key hspec.ready fun cq hcq => by
    have := hspec.grows
    rwa [findConsumeQueue, hcq, Option.getD_some] at this
  have hdispatching : ∀ x ∈ (if r.2 = true then some storeTimestamp else none),
      x ≤ storeTimestamp := by
    intro x hx
    split_ifs at hx
    · exact (Option.mem_some_iff.mp hx).ge
    · simp at hx
  by_cases hput : isPut u (findConsumeQueue cfg key s.consumeQueueTable) r.2 = true
  · have hheld := hspec.held hput
    have hinv := hinsert.dispatch (d := ⟨key, r.1.mapedFileQueue.getMaxOffset, storeTimestamp⟩)
      hpos hle ⟨r.1, by rw [lookup_insert_ite, if_pos rfl], hheld⟩
    rw [if_pos hput]
    exact hinv.setDispatching hdispatching
  · rw [if_neg hput]
    exact (hinsert.setLatest hle).setDispatching hdispatching

lemma mem_walk {walk : List Key} {d : Dispatched} (h : Inv s) (hd : d ∈ s.dispatched) :
    d.key ∈ order walk s.consumeQueueTable := by
  obtain ⟨cq, hcq, -⟩ := h.held d hd
  exact mem_order.mpr (mem_iff_lookup.mpr ⟨cq, hcq⟩)

lemma Inv.beginDoFlush (h : Inv s) (retryTimes : ℕ) (currentTimeMillis : ℤ) (walk : List Key) :
    Inv (beginDoFlush cfg retryTimes currentTimeMillis walk s) := by
  refine ⟨h.ready, h.held, h.times, h.ordered, h.latest, h.memory, h.diskLogics, h.dispatching,
    h.covered_le, h.covered, h.disk, le_rfl, ?_, fun _ d hd => ⟨fun _ hnot => ?_, ?_⟩⟩
  · simp only
    split_ifs
    · exact h.memory
    · exact h.latest
  · exact absurd (mem_walk h (List.mem_of_mem_take hd)) hnot
  · simp

/-- **A try.** If it finds nothing to flush before the last file, the queue is on the disk. -/
lemma Inv.commit (h : Inv s) (hs : step cfg s .commit = some s') : Inv s' := by
  simp only [step] at hs
  split at hs
  · next r hstage =>
    have hrun : Running s (.committing r) := hstage ▸ h.running
    split at hs
    · simp at hs
    · next key queues hqueues =>
      split_ifs at hs
      obtain ⟨cq, hcq, rfl⟩ := Option.map_eq_some_iff.mp hs
      have hready := h.ready key cq hcq
      obtain ⟨hready', hgrows⟩ := hready.commit r.flushConsumeQueueLeastPages
      have hready'' : Ready (commitQueue r.flushConsumeQueueLeastPages cq).mapedFileQueue := hready'
      have hinsert := h.insert key hready'' fun cq' hcq' => by
        obtain rfl := Option.some.inj (hcq.symm.trans hcq')
        exact hgrows
      have hrun' : Running _ (.committing r) := hstage ▸ hinsert.running
      refine hinsert.setStage _ ⟨hrun'.1, hrun'.2.1, fun hzero d hd => ?_⟩
      obtain ⟨hpast, hfirst⟩ := hrun'.2.2 hzero d hd
      refine ⟨hpast, fun hreached hhead => ?_⟩
      rw [Bool.or_eq_true, decide_eq_true_eq] at hreached
      rcases hreached with hreached | hstart
      · exact hfirst hreached hhead
      · -- this try has forced everything that the queue holds
        have hkey : key = d.key := by
          rw [hqueues] at hhead
          exact Option.some.inj hhead
        obtain ⟨cq', hcq', hheld⟩ := hinsert.held d (List.mem_of_mem_take hd)
        rw [lookup_insert_ite, if_pos hkey.symm] at hcq'
        obtain rfl := Option.some.inj hcq'
        refine ⟨_, by rw [lookup_insert_ite, if_pos hkey.symm], ?_⟩
        have hall := hready.allForced_commit hstart
        rw [← hzero] at hall
        exact AllForced.forced hall hheld
  · simp at hs

lemma Inv.nextQueue (h : Inv s) (hs : step cfg s .nextQueue = some s') : Inv s' := by
  simp only [step] at hs
  split at hs
  · next r hstage =>
    have hrun : Running s (.committing r) := hstage ▸ h.running
    split at hs
    · simp at hs
    · next key queues hqueues =>
      split_ifs at hs
      obtain rfl := Option.some.inj hs
      refine h.setStage _ ⟨hrun.1, hrun.2.1, fun hzero d hd => ⟨fun hcovering hnot => ?_, by simp⟩⟩
      obtain ⟨hpast, hfirst⟩ := hrun.2.2 hzero d hd
      rw [Bool.and_eq_true] at hcovering
      by_cases hkey : d.key = key
      · exact hfirst hcovering.2 (by rw [hqueues, hkey]; rfl)
      · refine hpast hcovering.1 ?_
        rw [hqueues, List.mem_cons, not_or]
        exact ⟨hkey, hnot⟩
  · simp at hs

lemma Inv.commitOther (h : Inv s) {key : Key} (hs : step cfg s (.commitOther key) = some s') :
    Inv s' := by
  simp only [step] at hs
  split at hs
  · next r hstage =>
    obtain ⟨cq, hcq, rfl⟩ := Option.map_eq_some_iff.mp hs
    obtain ⟨hready, hgrows⟩ := (h.ready key cq hcq).commit r.flushConsumeQueueLeastPages
    refine h.insert key hready fun cq' hcq' => ?_
    obtain rfl := Option.some.inj (hcq.symm.trans hcq')
    exact hgrows
  · simp at hs

/-- **The end of a run** that has covered every queue. -/
lemma Inv.setAgain (h : Inv s) (hs : step cfg s .setAgain = some s') : Inv s' := by
  simp only [step] at hs
  split at hs
  · next r hstage =>
    have hrun : Running s (.committing r) := hstage ▸ h.running
    by_cases hqueues : r.queues = []
    swap
    · rw [if_pos hqueues] at hs
      simp at hs
    rw [if_neg (not_not.mpr hqueues)] at hs
    by_cases hpages : r.flushConsumeQueueLeastPages = 0
    swap
    · rw [if_pos hpages] at hs
      obtain rfl := Option.some.inj hs
      exact h.setStage _ trivial
    · rw [if_neg (not_not.mpr hpages)] at hs
      obtain rfl := Option.some.inj hs
      have hcheckpoint := (h.setStage .writing trivial).setCheckpoint
        (c := if 0 < r.logicsMsgTimestamp then
            { s.storeCheckpoint with logicsMsgTimestamp := r.logicsMsgTimestamp }
          else s.storeCheckpoint) (by
            split_ifs
            · exact hrun.2.1
            · exact h.memory)
      by_cases hcovering : r.covering = true
      · rw [if_pos hcovering]
        have hall : ∀ d ∈ s.dispatched.take (max s.covered r.begun), OnDisk s d := by
          intro d hd
          rcases max_choice s.covered r.begun with hmax | hmax <;> rw [hmax] at hd
          · exact h.covered d hd
          · exact (hrun.2.2 hpages d hd).1 hcovering (by simp [hqueues])
        exact { hcheckpoint with covered_le := max_le h.covered_le hrun.1, covered := hall }
      · rw [if_neg hcovering]
        exact hcheckpoint
  · simp at hs

lemma inv_step {a : Action} (h : Inv s) (hok : Ordered s a ∧ Covered s a)
    (hs : step cfg s a = some s') : Inv s' := by
  obtain ⟨hordered, hcovered⟩ := hok
  cases a with
  | putMessagePostionInfoWrapper key writeable created u cqOffset storeTimestamp =>
    exact h.put hordered.1 hordered.2 hs
  | setLogicsMsgTimestamp =>
    obtain ⟨t, ht, rfl⟩ := Option.map_eq_some_iff.mp hs
    exact (h.setDispatching (t := none) (by simp)).setCheckpoint (h.dispatching t ht)
  | setPhysicMsgTimestamp t =>
    obtain rfl := Option.some.inj hs
    exact h.setCheckpoint h.memory
  | setIndexMsgTimestamp t =>
    obtain rfl := Option.some.inj hs
    exact h.setCheckpoint h.memory
  | doFlush retryTimes currentTimeMillis walk =>
    simp only [step] at hs
    split at hs
    · obtain rfl := Option.some.inj hs
      exact h.beginDoFlush retryTimes currentTimeMillis walk
    · simp at hs
  | commit => exact h.commit hs
  | nextQueue => exact h.nextQueue hs
  | commitOther key => exact h.commitOther hs
  | setAgain => exact h.setAgain hs
  | writePage =>
    simp only [step] at hs
    split at hs
    · obtain rfl := Option.some.inj hs
      exact (h.write hcovered).setStage .waiting trivial
    · simp at hs
  | flushCheckpoint =>
    obtain rfl := Option.some.inj hs
    exact h.write hcovered

lemma inv_new : Inv newStore := by
  constructor <;> simp [newStore, Running]

lemma Inv.sound (h : Inv s) : Sound s := by
  refine ⟨h.disk, fun before d after heq ht e he => ?_⟩
  have hordered := h.ordered
  rw [heq, List.pairwise_append] at hordered
  have hle := hordered.2.2 e he d List.mem_cons_self
  exact h.disk e (by rw [heq]; exact List.mem_append_left _ he) (hle.trans ht)

/-- **The checkpoint is sound** in every state of every run that writes the page only with a time
such that what is not later had been dispatched when a run of `doFlush` began whose tries found
nothing to flush before the last file of any queue. -/
theorem checkpoint_sound (cfg : MessageStoreConfig) (as : List Action) (s : Store)
    (hordered : Meets (step cfg) Ordered newStore as)
    (hcovered : Meets (step cfg) Covered newStore as)
    (hr : run (step cfg) newStore as = some s) : Sound s :=
  (run_invariant (fun _ _ _ => inv_step) inv_new (hordered.and hcovered) hr).sound

/-! ### Two files to flush -/

instance (q : MapedFileQueue (List CQUnit)) (e : ℕ) : Decidable (Forced q e) :=
  inferInstanceAs (Decidable (∃ f ∈ q.mapedFiles, _ ∧ _))

instance (s : Store) (d : Dispatched) : Decidable (OnDisk s d) :=
  inferInstanceAs (Decidable (∃ cq ∈ s.consumeQueueTable.lookup d.key, Forced _ _))

instance (s : Store) : (a : Action) → Decidable (Ordered s a)
  | .putMessagePostionInfoWrapper _ _ _ _ _ _ => inferInstanceAs (Decidable (_ ∧ _))
  | .setLogicsMsgTimestamp | .setPhysicMsgTimestamp _ | .setIndexMsgTimestamp _ | .doFlush _ _ _
  | .commit | .nextQueue | .commitOther _ | .setAgain | .writePage | .flushCheckpoint =>
    inferInstanceAs (Decidable True)

instance (s : Store) : (a : Action) → Decidable (Covered s a)
  | .writePage | .flushCheckpoint =>
    inferInstanceAs (Decidable (∀ d ∈ s.dispatched.drop s.covered, _ < _))
  | .putMessagePostionInfoWrapper _ _ _ _ _ _ | .setLogicsMsgTimestamp | .setPhysicMsgTimestamp _
  | .setIndexMsgTimestamp _ | .doFlush _ _ _ | .commit | .nextQueue | .commitOther _ | .setAgain =>
    inferInstanceAs (Decidable True)

/-- Files of two entries. -/
def twoEntries : MessageStoreConfig := ⟨40, by decide, by decide, 2, 1000⟩

def message (i : ℕ) (storeTimestamp : ℤ) : List Action :=
  [.putMessagePostionInfoWrapper ("T".toList, 0) true (fun _ => true)
    ⟨Int64.ofNat (100 * i), 100, 0⟩ i storeTimestamp, .setLogicsMsgTimestamp]

/-- Three messages, and another one four seconds later. -/
def fourMessages : List Action :=
  message 0 1000 ++ message 1 1000 ++ message 2 1000 ++ message 3 5000 ++
    [.setPhysicMsgTimestamp 5000]

/-- One try commits the first of two files. -/
def oneTry : List Action :=
  fourMessages ++ [.doFlush 1 1000 [], .commit, .nextQueue, .setAgain, .writePage]

theorem checkpoint_sound_two_files :
    Meets (step twoEntries) Ordered newStore oneTry ∧
      ∃ s, run (step twoEntries) newStore oneTry = some s ∧ ¬ Sound s := by
  have hordered : checks (step twoEntries) (fun s a => decide (Ordered s a)) newStore oneTry := by
    decide
  have hrun : (run (step twoEntries) newStore oneTry).map (fun s => decide
      (∃ d ∈ s.dispatched, d.storeTimestamp ≤ s.disk.getMinTimestamp ∧ ¬ OnDisk s d)) =
      some true := by
    decide
  refine ⟨meets_of_checks (fun _ _ h => of_decide_eq_true h) hordered, ?_⟩
  obtain ⟨s, hs, heq⟩ := Option.map_eq_some_iff.mp hrun
  obtain ⟨d, hd, ht, hnot⟩ := of_decide_eq_true heq
  exact ⟨s, hs, fun hsound => hnot (hsound.1 d hd ht)⟩

/-- The next run commits the second file. -/
def twoRuns : List Action :=
  fourMessages ++ [.doFlush 1 0 [], .commit, .nextQueue, .setAgain, .doFlush 1 1000 [], .commit,
    .nextQueue, .setAgain, .writePage]

theorem checkpoint_sound_two_runs :
    ∃ s, run (step twoEntries) newStore twoRuns = some s ∧ s.disk.getMinTimestamp = 2000 ∧
      Sound s := by
  have hordered : checks (step twoEntries) (fun s a => decide (Ordered s a)) newStore twoRuns := by
    decide
  have hcovered : checks (step twoEntries) (fun s a => decide (Covered s a)) newStore twoRuns := by
    decide
  have hrun : (run (step twoEntries) newStore twoRuns).map (·.disk.getMinTimestamp) =
      some 2000 := by
    decide
  obtain ⟨s, hs, heq⟩ := Option.map_eq_some_iff.mp hrun
  exact ⟨s, hs, heq, checkpoint_sound twoEntries twoRuns s
    (meets_of_checks (fun _ _ h => of_decide_eq_true h) hordered)
    (meets_of_checks (fun _ _ h => of_decide_eq_true h) hcovered) hs⟩

end CloudMQ.Checkpoint
