import CloudMQ.OrderlyConsume

/-!
The task of an orderly queue.

A pull that puts messages into a queue which is not being consumed makes a task and marks the
queue. The task runs under the lock of the queue, batch after batch; it leaves its loop for a later
submission of its own or, when it finds no message, by taking the mark back. The mark stands for
the one task there is: a queue with messages always has one, and so its messages are consumed in
their order.
-/

namespace CloudMQ.OrderlyTasks

open CloudMQ.SortedMaps CloudMQ.PulledMessages CloudMQ.Runs
open CloudMQ.OrderlyConsume (ConsumeOrderlyStatus Outcome)

/-- A batch has at least one message, which `checkConfig` makes sure of. -/
structure Config where
  messageModel : MessageModel
  consumeMessageBatchMaxSize : ℕ
  pos : 0 < consumeMessageBatchMaxSize

/-- Where a task is. It begins with the answer of `putMessage`, before the callback of the pull
has submitted it. -/
inductive Task
  | submitting
  | queued
  | turning
  | taking
  | consuming (msgs : List MessageExt)
  | consumed (msgs : List MessageExt)
  | tryLockLater
  | submitLater
deriving DecidableEq

/-- The task is in `run`, and holds the lock of the queue. -/
def Task.holds : Task → Bool
  | .turning | .taking | .consuming _ | .consumed _ => true
  | _ => false

/-- What becomes of a message in `msgTreeMap`. -/
inductive Event
  | queued (k : ℤ)
  | taken (k : ℤ)

/-- The queue, its tasks, what happened in `msgTreeMap`, the last event first, and what the
listener was given. -/
structure State where
  processQueue : ProcessQueue
  tasks : List Task
  log : List Event
  received : List ℤ

def newState : State := ⟨{}, [], [], []⟩

/-- The checks of a turn. -/
inductive Check
  | notLocked
  | lockExpired
  | timeout
  | passed

/-- A status of `none` is an exception, or `null`. -/
inductive Action
  | putMessage (msgs : List MessageExt)
  | submit (i : ℕ)
  | run (i : ℕ) (locked : Bool)
  | turn (i : ℕ) (check : Check)
  | takeMessags (i : ℕ)
  | consumeMessage (i : ℕ)
  | processConsumeResult (i : ℕ) (status : Option ConsumeOrderlyStatus) (autoCommit : Bool)
  | tryLock (i : ℕ)
  | submitLater (i : ℕ)

/-- Whether `processConsumeResult` lets the loop continue. Where it does not, it has submitted the
task for later. -/
def continueConsume (autoCommit : Bool) : ConsumeOrderlyStatus → Bool
  | .SUSPEND_CURRENT_QUEUE_A_MOMENT => false
  | .ROLLBACK => autoCommit
  | _ => true

/-- The messages that go back to `msgTreeMap`. -/
def putBack (autoCommit : Bool) (status : ConsumeOrderlyStatus) (msgs : List MessageExt)
    (q : ProcessQueue) : List ℤ :=
  match status with
  | .SUSPEND_CURRENT_QUEUE_A_MOMENT => offsets msgs
  | .ROLLBACK => if autoCommit then [] else q.msgTreeMapTemp.keys
  | _ => []

namespace State

variable (s : State)

def setTask (i : ℕ) (t : Task) : State := { s with tasks := s.tasks.set i t }

def endTask (i : ℕ) : State := { s with tasks := s.tasks.eraseIdx i }

/-- The answer of `putMessage` is whether a task begins. -/
def putMessage (msgs : List MessageExt) : State :=
  let r := s.processQueue.putMessage msgs
  { s with
    processQueue := r.1
    tasks := if r.2 then s.tasks ++ [.submitting] else s.tasks
    log := ((offsets msgs).map Event.queued).reverse ++ s.log }

/-- An empty batch ends the loop. -/
def takeMessags (batchSize i : ℕ) : State :=
  let r := s.processQueue.takeMessags batchSize
  let s' := { s with
    processQueue := r.2
    log := ((offsets r.1).map Event.taken).reverse ++ s.log }
  if r.1.isEmpty then s'.endTask i else s'.setTask i (.consuming r.1)

/-- An exception ends the task. -/
def processConsumeResult (i : ℕ) (msgs : List MessageExt) (status : ConsumeOrderlyStatus)
    (autoCommit : Bool) : State :=
  let r := OrderlyConsume.processConsumeResult autoCommit status msgs s.processQueue
  let s' := { s with
    processQueue := r.1
    log := ((putBack autoCommit status msgs s.processQueue).map Event.queued).reverse ++ s.log }
  if r.2 = .threw then s'.endTask i
  else if continueConsume autoCommit status then s'.setTask i .turning
  else s'.setTask i .submitLater

end State

/-- The steps. A task that finds the queue dropped ends. -/
def step (cfg : Config) (s : State) : Action → Option State
  | .putMessage msgs => some (s.putMessage msgs)
  | .submit i =>
    match s.tasks[i]? with
    | some .submitting => some (s.setTask i .queued)
    | _ => none
  | .run i locked =>
    match s.tasks[i]? with
    | some .queued =>
      if s.processQueue.dropped then some (s.endTask i)
      else if s.tasks.any Task.holds then none
      else if cfg.messageModel = .BROADCASTING ∨ locked then some (s.setTask i .turning)
      else some (s.setTask i .tryLockLater)
    | _ => none
  | .turn i check =>
    match s.tasks[i]? with
    | some .turning =>
      if s.processQueue.dropped then some (s.endTask i)
      else
        match check with
        | .notLocked | .lockExpired =>
          if cfg.messageModel = .CLUSTERING then some (s.setTask i .tryLockLater) else none
        | .timeout => some (s.setTask i .submitLater)
        | .passed => some (s.setTask i .taking)
    | _ => none
  | .takeMessags i =>
    match s.tasks[i]? with
    | some .taking => some (s.takeMessags cfg.consumeMessageBatchMaxSize i)
    | _ => none
  | .consumeMessage i =>
    match s.tasks[i]? with
    | some (.consuming msgs) =>
      if s.processQueue.dropped then some (s.endTask i)
      else some { s.setTask i (.consumed msgs) with received := s.received ++ offsets msgs }
    | _ => none
  | .processConsumeResult i status autoCommit =>
    match s.tasks[i]? with
    | some (.consumed msgs) =>
      some (s.processConsumeResult i msgs (status.getD .SUSPEND_CURRENT_QUEUE_A_MOMENT) autoCommit)
    | _ => none
  | .tryLock i =>
    match s.tasks[i]? with
    | some .tryLockLater => some (s.setTask i .submitLater)
    | _ => none
  | .submitLater i =>
    match s.tasks[i]? with
    | some .submitLater => some (s.setTask i .queued)
    | _ => none

/-! ### What is promised -/

/-- The last event of a message is that it was queued. -/
def Waiting (k : ℤ) : List Event → Prop
  | [] => False
  | .queued k' :: log => k = k' ∨ Waiting k log
  | .taken k' :: log => k ≠ k' ∧ Waiting k log

/-- No message was taken while a smaller one was waiting. -/
def InOrder : List Event → Prop
  | [] => True
  | .queued _ :: log => InOrder log
  | .taken k :: log => (∀ k' < k, ¬Waiting k' log) ∧ InOrder log

def Event.takenOffset : Event → Option ℤ
  | .queued _ => none
  | .taken k => some k

/-- The messages that were taken, the first one first. -/
def taken (log : List Event) : List ℤ := (log.filterMap Event.takenOffset).reverse

/-- There is a continuation in which the listener is given the message. -/
def Deliverable (cfg : Config) (s : State) (k : ℤ) : Prop :=
  ∃ as s' more, run (step cfg) s as = some s' ∧ s'.received = s.received ++ more ∧ k ∈ more

/-- The mark stands for the one task, a queue with messages has it, its messages can all be
consumed, and the listener is given them in their order. -/
structure OneTask (cfg : Config) (s : State) : Prop where
  at_most_one : s.tasks.length ≤ 1
  consuming : s.processQueue.consuming = true ↔ s.tasks.length = 1
  not_empty : s.processQueue.msgTreeMap.size ≠ 0 → s.tasks.length = 1
  not_stranded : ∀ k ∈ s.processQueue.msgTreeMap, Deliverable cfg s k
  in_order : InOrder s.log
  received : s.received <+: taken s.log

/-! ### Events -/

section Log

variable {k : ℤ} {l : List ℤ} {log : List Event}

lemma reverse_append_cons {α : Type} (a : α) (l log : List α) :
    (a :: l).reverse ++ log = l.reverse ++ a :: log := by
  rw [List.reverse_cons, List.append_assoc]
  rfl

lemma waiting_queued :
    Waiting k ((l.map Event.queued).reverse ++ log) ↔ k ∈ l ∨ Waiting k log := by
  induction l generalizing log with
  | nil => exact (or_iff_right List.not_mem_nil).symm
  | cons a l ih =>
    rw [List.map_cons, reverse_append_cons, ih, Waiting, List.mem_cons]
    tauto

lemma waiting_taken :
    Waiting k ((l.map Event.taken).reverse ++ log) ↔ k ∉ l ∧ Waiting k log := by
  induction l generalizing log with
  | nil => exact (and_iff_right List.not_mem_nil).symm
  | cons a l ih =>
    rw [List.map_cons, reverse_append_cons, ih, Waiting, List.mem_cons, not_or]
    tauto

lemma inOrder_queued : InOrder ((l.map Event.queued).reverse ++ log) ↔ InOrder log := by
  induction l generalizing log with
  | nil => rfl
  | cons a l ih =>
    rw [List.map_cons, reverse_append_cons, ih]
    rfl

/-- A batch may be taken when it ascends and nothing that is smaller waits outside of it. -/
lemma inOrder_taken (hasc : l.Pairwise (· < ·))
    (hfirst : ∀ a ∈ l, ∀ k', Waiting k' log → k' < a → k' ∈ l) (h : InOrder log) :
    InOrder ((l.map Event.taken).reverse ++ log) := by
  induction l generalizing log with
  | nil => exact h
  | cons a l ih =>
    obtain ⟨hlt, hrest⟩ := List.pairwise_cons.mp hasc
    rw [List.map_cons, reverse_append_cons]
    refine ih hrest (fun b hb k' hk' hkb => ?_) ⟨fun k' hk' hwait => ?_, h⟩
    · have hmem := hfirst b (List.mem_cons_of_mem a hb) k' hk'.2 hkb
      exact (List.mem_cons.mp hmem).resolve_left hk'.1
    · rcases List.mem_cons.mp (hfirst a List.mem_cons_self k' hwait hk') with rfl | hmem
      · exact lt_irrefl k' hk'
      · exact lt_asymm hk' (hlt k' hmem)

lemma taken_queued : taken ((l.map Event.queued).reverse ++ log) = taken log := by
  have hnone : (l.map Event.queued).reverse.filterMap Event.takenOffset = [] := by
    rw [List.filterMap_eq_nil_iff]
    intro e he
    obtain ⟨k, -, rfl⟩ := List.mem_map.mp (List.mem_reverse.mp he)
    rfl
  rw [taken, List.filterMap_append, hnone]
  rfl

lemma taken_taken : taken ((l.map Event.taken).reverse ++ log) = taken log ++ l := by
  have hall : (l.map Event.taken).reverse.filterMap Event.takenOffset = l.reverse := by
    rw [← List.map_reverse, List.filterMap_map]
    exact List.filterMap_some
  rw [taken, List.filterMap_append, hall, List.reverse_append, List.reverse_reverse]
  rfl

end Log

/-! ### The invariant -/

/-- The batch of a task. -/
def Task.batch : Task → Option (List MessageExt)
  | .consuming msgs | .consumed msgs => some msgs
  | _ => none

/-- What the task has taken for the listener. -/
def Task.inHand : Task → List ℤ
  | .consuming msgs => offsets msgs
  | _ => []

/-- The mark and the task. The batch of a task waits in `msgTreeMapTemp` to be finished. -/
def Token (q : ProcessQueue) (tasks : List Task) : Prop :=
  (tasks = [] ∧ q.consuming = false ∧ q.msgTreeMap.size = 0) ∨
    ∃ t, tasks = [t] ∧ q.consuming = true ∧
      ∀ msgs ∈ t.batch, msgs ≠ [] ∧ ∀ k ∈ offsets msgs, k ∈ q.msgTreeMapTemp

structure Inv (s : State) : Prop where
  open' : s.processQueue.dropped = false
  keyed : ∀ e ∈ s.processQueue.msgTreeMap.entries, e.2.queueOffset = e.1
  keyedTemp : ∀ e ∈ s.processQueue.msgTreeMapTemp.entries, e.2.queueOffset = e.1
  waiting : ∀ k, k ∈ s.processQueue.msgTreeMap ↔ Waiting k s.log
  token : Token s.processQueue s.tasks
  in_order : InOrder s.log
  received : s.received ++ s.tasks.flatMap Task.inHand = taken s.log

lemma inv_new : Inv newState where
  open' := rfl
  keyed := fun _ he => absurd he List.not_mem_nil
  keyedTemp := fun _ he => absurd he List.not_mem_nil
  waiting := fun k => iff_of_false (TreeMap.not_mem_empty k) id
  token := .inl ⟨rfl, rfl, rfl⟩
  in_order := trivial
  received := rfl

section Steps

variable {cfg : Config} {s s' : State} {i : ℕ} {t t' : Task}

/-- A task that is found is the only one. -/
lemma Inv.only (h : Inv s) (ht : s.tasks[i]? = some t) :
    i = 0 ∧ s.tasks = [t] ∧ s.processQueue.consuming = true ∧
      ∀ msgs ∈ t.batch, msgs ≠ [] ∧ ∀ k ∈ offsets msgs, k ∈ s.processQueue.msgTreeMapTemp := by
  rcases h.token with ⟨htasks, -⟩ | ⟨t', htasks, hconsuming, hbatch⟩
  · rw [htasks] at ht
    exact absurd ht (by simp)
  · rw [htasks] at ht
    cases i with
    | zero =>
      obtain rfl := Option.some.inj ht
      exact ⟨rfl, htasks, hconsuming, hbatch⟩
    | succ i => exact absurd ht (by simp)

/-- The task goes on, and the queue is as it was. -/
lemma Inv.setTask (h : Inv s) (ht : s.tasks[i]? = some t)
    (hbatch : ∀ msgs ∈ t'.batch, msgs ∈ t.batch) (hhand : t'.inHand = t.inHand) :
    Inv (s.setTask i t') := by
  obtain ⟨rfl, htasks, hconsuming, hb⟩ := h.only ht
  have htasks' : (s.setTask 0 t').tasks = [t'] := by
    rw [State.setTask, htasks]
    rfl
  refine { h with
    token := .inr ⟨t', htasks', hconsuming, fun msgs hm => hb msgs (hbatch msgs hm)⟩
    received := ?_ }
  have hreceived := h.received
  rw [htasks, List.flatMap_singleton, ← hhand] at hreceived
  rw [htasks', List.flatMap_singleton]
  exact hreceived

lemma Inv.putMessage (h : Inv s) (msgs : List MessageExt) : Inv (s.putMessage msgs) := by
  obtain ⟨hconsuming, hdispatch⟩ := ProcessQueue.putMessage_consuming (q := s.processQueue) msgs
  have htemp := ProcessQueue.msgTreeMapTemp_putMessage (q := s.processQueue) msgs
  have hdropped : (s.processQueue.putMessage msgs).1.dropped = s.processQueue.dropped :=
    (ProcessQueue.putOne_fold msgs (s.processQueue, 0)).2.2.2.2
  unfold State.putMessage
  generalize hr : s.processQueue.putMessage msgs = r at hconsuming hdispatch htemp hdropped ⊢
  refine { open' := hdropped.trans h.open', keyed := ?_, keyedTemp := ?_, waiting := ?_,
           token := ?_, in_order := ?_, received := ?_ }
  · intro e he
    rw [← hr, ProcessQueue.msgTreeMap_putMessage] at he
    rcases TreeMap.mem_entries_putAll he with he | he
    · obtain ⟨m, -, rfl⟩ := List.mem_map.mp he
      rfl
    · exact h.keyed e he
  · rw [htemp]
    exact h.keyedTemp
  · intro k
    rw [waiting_queued, ← h.waiting k, ← hr]
    exact ProcessQueue.mem_putMessage
  · rcases h.token with ⟨htasks, hidle, -⟩ | ⟨t, htasks, hbusy, hbatch⟩
    · rw [hidle, Bool.false_or] at hconsuming
      dsimp only
      by_cases hr2 : r.2 = true
      · rw [if_pos hr2, htasks]
        exact .inr ⟨.submitting, rfl, hconsuming.trans hr2,
          fun _ hm => absurd hm (by simp [Task.batch])⟩
      · rw [if_neg hr2, htasks]
        refine .inl ⟨rfl, hconsuming.trans (by simpa using hr2), ?_⟩
        by_contra hsize
        exact hr2 (hdispatch.mpr ⟨hsize, hidle⟩)
    · have hr2 : ¬r.2 = true := fun hr2 => by
        rw [hbusy] at hdispatch
        exact absurd (hdispatch.mp hr2).2 (by decide)
      dsimp only
      rw [if_neg hr2]
      refine .inr ⟨t, htasks, ?_, fun msgs hm => ?_⟩
      · rw [hconsuming, hbusy, Bool.true_or]
      · rw [htemp]
        exact hbatch msgs hm
  · dsimp only
    rw [inOrder_queued]
    exact h.in_order
  · dsimp only
    rw [taken_queued, ← h.received]
    split
    · rw [List.flatMap_append]
      exact congrArg _ (List.append_nil _)
    · rfl

/-- A batch is taken from the front, and waits to be finished. -/
lemma Inv.takeMessags (h : Inv s) (ht : s.tasks[i]? = some .taking) :
    Inv (s.takeMessags cfg.consumeMessageBatchMaxSize i) := by
  obtain ⟨rfl, htasks, hconsuming, -⟩ := h.only ht
  have hfront := ProcessQueue.front_takeMessags h.keyed cfg.consumeMessageBatchMaxSize
  have hmark := ProcessQueue.takeMessags_consuming cfg.pos s.processQueue
  obtain ⟨-, -, -, -, -, hdropped⟩ :=
    ProcessQueue.takeMessags_spec cfg.consumeMessageBatchMaxSize s.processQueue
  unfold State.takeMessags
  generalize s.processQueue.takeMessags cfg.consumeMessageBatchMaxSize = r at *
  have hwaiting : ∀ k, k ∈ r.2.msgTreeMap ↔
      Waiting k (((offsets r.1).map Event.taken).reverse ++ s.log) := by
    intro k
    rw [waiting_taken, ← h.waiting k, hfront.mem k]
    constructor
    · exact fun hk => ⟨fun hk' => lt_irrefl k (hfront.before k hk' k hk), .inr hk⟩
    · exact fun hk => hk.2.resolve_left hk.1
  have hinOrder : InOrder (((offsets r.1).map Event.taken).reverse ++ s.log) := by
    refine inOrder_taken hfront.ascending (fun k hk k' hk' hlt => ?_) h.in_order
    rcases (hfront.mem k').mp ((h.waiting k').mpr hk') with hmem | hmem
    · exact hmem
    · exact absurd hlt (lt_asymm (hfront.before k hk k' hmem))
  have hreceived := h.received
  rw [htasks] at hreceived
  change s.received ++ [] = taken s.log at hreceived
  rw [List.append_nil] at hreceived
  dsimp only
  rcases hmark with ⟨hnil, hsize, hmark⟩ | ⟨hne, hmark⟩
  · rw [hnil, List.isEmpty_nil, if_pos rfl]
    rw [hnil] at hwaiting hinOrder
    have hsize' : r.2.msgTreeMap.size = 0 :=
      TreeMap.size_eq_zero.mpr fun k hk =>
        TreeMap.size_eq_zero.mp hsize k ((hfront.mem k).mpr (.inr hk))
    have hnone : s.tasks.eraseIdx 0 = [] := by
      rw [htasks]
      rfl
    refine { open' := hdropped.trans h.open', keyed := hfront.keyed,
             keyedTemp := hfront.keyedTemp h.keyedTemp,
             waiting := hwaiting, token := .inl ⟨hnone, hmark, hsize'⟩, in_order := hinOrder,
             received := ?_ }
    change s.received ++ (s.tasks.eraseIdx 0).flatMap Task.inHand = taken s.log
    rw [hnone, ← hreceived]
    exact List.append_nil _
  · rw [if_neg (by simpa using hne)]
    have hone : s.tasks.set 0 (.consuming r.1) = [.consuming r.1] := by
      rw [htasks]
      rfl
    refine { open' := hdropped.trans h.open', keyed := hfront.keyed,
             keyedTemp := hfront.keyedTemp h.keyedTemp,
             waiting := hwaiting, in_order := hinOrder, received := ?_,
             token := .inr ⟨_, hone, hmark.trans hconsuming, fun msgs hm => ?_⟩ }
    · obtain rfl := Option.some.inj hm
      refine ⟨hne, fun k hk => ?_⟩
      exact (hfront.memTemp k).mpr (.inl hk)
    · change s.received ++ (s.tasks.set 0 (.consuming r.1)).flatMap Task.inHand =
        taken (((offsets r.1).map Event.taken).reverse ++ s.log)
      rw [hone, List.flatMap_singleton, taken_taken, ← hreceived]
      rfl

/-- What finishing a batch leaves of the queue. -/
structure Settled (q q' : ProcessQueue) (back : List ℤ) : Prop where
  dropped : q'.dropped = q.dropped
  consuming : q'.consuming = q.consuming
  keyed : ∀ e ∈ q'.msgTreeMap.entries, e.2.queueOffset = e.1
  keyedTemp : ∀ e ∈ q'.msgTreeMapTemp.entries, e.2.queueOffset = e.1
  mem : ∀ k, k ∈ q'.msgTreeMap ↔ k ∈ back ∨ k ∈ q.msgTreeMap

section Settle

variable {q : ProcessQueue} {msgs : List MessageExt}

lemma settled_commit (hkeyed : ∀ e ∈ q.msgTreeMap.entries, e.2.queueOffset = e.1)
    (hne : msgs ≠ []) (htemp : ∀ k ∈ offsets msgs, k ∈ q.msgTreeMapTemp) :
    (OrderlyConsume.commitResult q).2 ≠ .threw ∧
      Settled q (OrderlyConsume.commitResult q).1 [] := by
  obtain ⟨msg, rest, rfl⟩ := List.exists_cons_of_ne_nil hne
  cases hlast : q.msgTreeMapTemp.lastKey with
  | none =>
    have hempty := TreeMap.size_eq_zero.mp (TreeMap.lastKey_eq_none.mp hlast)
    exact absurd (htemp msg.queueOffset List.mem_cons_self) (hempty _)
  | some last =>
    rw [OrderlyConsume.commitResult, ProcessQueue.commit, hlast]
    refine ⟨fun h => Outcome.noConfusion h, ⟨rfl, rfl, hkeyed, fun e he => ?_, fun k => ?_⟩⟩
    · exact absurd he List.not_mem_nil
    · exact (or_iff_right List.not_mem_nil).symm

variable (hkeyed : ∀ e ∈ q.msgTreeMap.entries, e.2.queueOffset = e.1)
  (hkeyedTemp : ∀ e ∈ q.msgTreeMapTemp.entries, e.2.queueOffset = e.1)
include hkeyed hkeyedTemp

lemma settled_again : Settled q (q.makeMessageToCosumeAgain msgs) (offsets msgs) := by
  obtain ⟨htree, htemp, -, hdropped⟩ := ProcessQueue.again_fold msgs q
  refine ⟨hdropped, ProcessQueue.consuming_again msgs q, fun e he => ?_, fun e he => ?_,
    fun k => ?_⟩
  · rw [htree] at he
    rcases TreeMap.mem_entries_putAll he with he | he
    · obtain ⟨m, -, rfl⟩ := List.mem_map.mp he
      rfl
    · exact hkeyed e he
  · rw [htemp] at he
    exact hkeyedTemp e (TreeMap.mem_entries_removeAll he)
  · rw [htree, TreeMap.mem_putAll, map_fst_entries]

lemma settled_rollback : Settled q q.rollback q.msgTreeMapTemp.keys := by
  refine ⟨rfl, rfl, fun e he => ?_, fun e he => absurd he List.not_mem_nil, fun k => ?_⟩
  · rcases TreeMap.mem_entries_putAll he with he | he
    · exact hkeyedTemp e he
    · exact hkeyed e he
  · exact TreeMap.mem_putAll

lemma settled (hne : msgs ≠ []) (htemp : ∀ k ∈ offsets msgs, k ∈ q.msgTreeMapTemp)
    (autoCommit : Bool) (status : ConsumeOrderlyStatus) :
    (OrderlyConsume.processConsumeResult autoCommit status msgs q).2 ≠ .threw ∧
      Settled q (OrderlyConsume.processConsumeResult autoCommit status msgs q).1
        (putBack autoCommit status msgs q) := by
  have hcommit := settled_commit hkeyed hne htemp
  have hreturned : Outcome.returned ≠ .threw := fun h => Outcome.noConfusion h
  have hsame : Settled q q [] :=
    ⟨rfl, rfl, hkeyed, hkeyedTemp, fun k => (or_iff_right List.not_mem_nil).symm⟩
  cases autoCommit with
  | true =>
    cases status with
    | SUSPEND_CURRENT_QUEUE_A_MOMENT => exact ⟨hreturned, settled_again hkeyed hkeyedTemp⟩
    | _ => exact hcommit
  | false =>
    cases status with
    | SUCCESS => exact ⟨hreturned, hsame⟩
    | COMMIT => exact hcommit
    | ROLLBACK => exact ⟨hreturned, settled_rollback hkeyed hkeyedTemp⟩
    | SUSPEND_CURRENT_QUEUE_A_MOMENT => exact ⟨hreturned, settled_again hkeyed hkeyedTemp⟩

end Settle

/-- A finished batch is committed, kept or put back, and the task goes on or is submitted later. -/
lemma Inv.processConsumeResult (h : Inv s) {msgs : List MessageExt}
    (ht : s.tasks[i]? = some (.consumed msgs)) (status : ConsumeOrderlyStatus) (autoCommit : Bool) :
    Inv (s.processConsumeResult i msgs status autoCommit) := by
  obtain ⟨rfl, htasks, hconsuming, hbatch⟩ := h.only ht
  obtain ⟨hne, htemp⟩ := hbatch msgs rfl
  obtain ⟨hthrew, hs⟩ := settled h.keyed h.keyedTemp hne htemp autoCommit status
  have hreceived := h.received
  rw [htasks] at hreceived
  unfold State.processConsumeResult
  dsimp only
  rw [if_neg hthrew]
  have hall : ∀ t' : Task, t'.batch = none → t'.inHand = [] →
      Inv (State.setTask { s with
        processQueue := (OrderlyConsume.processConsumeResult autoCommit status msgs
          s.processQueue).1
        log := ((putBack autoCommit status msgs s.processQueue).map Event.queued).reverse ++
          s.log } 0 t') := by
    intro t' hnone hhand
    have hone : s.tasks.set 0 t' = [t'] := by
      rw [htasks]
      rfl
    refine { open' := hs.dropped.trans h.open', keyed := hs.keyed, keyedTemp := hs.keyedTemp,
             waiting := fun k => ?_, token := .inr ⟨t', hone, hs.consuming.trans hconsuming, ?_⟩,
             in_order := ?_, received := ?_ }
    · dsimp only [State.setTask]
      rw [waiting_queued, ← h.waiting k]
      exact hs.mem k
    · rw [hnone]
      exact fun _ hm => absurd hm (by simp)
    · dsimp only [State.setTask]
      rw [inOrder_queued]
      exact h.in_order
    · dsimp only [State.setTask]
      rw [taken_queued, hone, List.flatMap_singleton, hhand]
      exact hreceived
  split
  · exact hall .turning rfl rfl
  · exact hall .submitLater rfl rfl

/-- The listener is given the batch. -/
lemma Inv.consumeMessage (h : Inv s) {msgs : List MessageExt}
    (ht : s.tasks[i]? = some (.consuming msgs)) :
    Inv { s.setTask i (.consumed msgs) with received := s.received ++ offsets msgs } := by
  obtain ⟨rfl, htasks, hconsuming, hbatch⟩ := h.only ht
  have hone : s.tasks.set 0 (.consumed msgs) = [.consumed msgs] := by
    rw [htasks]
    rfl
  refine { open' := h.open', keyed := h.keyed, keyedTemp := h.keyedTemp, waiting := h.waiting,
           token := .inr ⟨_, hone, hconsuming, fun m hm => hbatch m hm⟩, in_order := h.in_order,
           received := ?_ }
  have hreceived := h.received
  rw [htasks, List.flatMap_singleton] at hreceived
  change (s.received ++ offsets msgs) ++ (s.tasks.set 0 (.consumed msgs)).flatMap Task.inHand = _
  rw [hone]
  exact (List.append_nil _).trans hreceived

lemma inv_step {a : Action} (h : Inv s) (hs : step cfg s a = some s') : Inv s' := by
  have hopen := h.open'
  cases a with
  | putMessage msgs =>
    obtain rfl := Option.some.inj hs
    exact h.putMessage msgs
  | submit i =>
    rw [step] at hs
    split at hs
    · next ht =>
      obtain rfl := Option.some.inj hs
      exact h.setTask ht (fun _ hm => hm) rfl
    · exact absurd hs (by simp)
  | run i locked =>
    rw [step] at hs
    split at hs
    · next ht =>
      rw [hopen, if_neg (by decide)] at hs
      split at hs
      · exact absurd hs (by simp)
      · split at hs
        · obtain rfl := Option.some.inj hs
          exact h.setTask ht (fun _ hm => hm) rfl
        · obtain rfl := Option.some.inj hs
          exact h.setTask ht (fun _ hm => hm) rfl
    · exact absurd hs (by simp)
  | turn i check =>
    unfold step at hs
    dsimp only at hs
    split at hs
    · next ht =>
      rw [hopen, if_neg (by decide)] at hs
      split at hs
      · split at hs
        · obtain rfl := Option.some.inj hs
          exact h.setTask ht (fun _ hm => hm) rfl
        · exact absurd hs (by simp)
      · split at hs
        · obtain rfl := Option.some.inj hs
          exact h.setTask ht (fun _ hm => hm) rfl
        · exact absurd hs (by simp)
      · obtain rfl := Option.some.inj hs
        exact h.setTask ht (fun _ hm => hm) rfl
      · obtain rfl := Option.some.inj hs
        exact h.setTask ht (fun _ hm => hm) rfl
    · exact absurd hs (by simp)
  | takeMessags i =>
    rw [step] at hs
    split at hs
    · next ht =>
      obtain rfl := Option.some.inj hs
      exact h.takeMessags ht
    · exact absurd hs (by simp)
  | consumeMessage i =>
    rw [step] at hs
    split at hs
    · next msgs ht =>
      rw [hopen, if_neg (by decide)] at hs
      obtain rfl := Option.some.inj hs
      exact h.consumeMessage ht
    · exact absurd hs (by simp)
  | processConsumeResult i status autoCommit =>
    rw [step] at hs
    split at hs
    · next msgs ht =>
      obtain rfl := Option.some.inj hs
      exact h.processConsumeResult ht _ autoCommit
    · exact absurd hs (by simp)
  | tryLock i =>
    rw [step] at hs
    split at hs
    · next ht =>
      obtain rfl := Option.some.inj hs
      exact h.setTask ht (fun _ hm => hm) rfl
    · exact absurd hs (by simp)
  | submitLater i =>
    rw [step] at hs
    split at hs
    · next ht =>
      obtain rfl := Option.some.inj hs
      exact h.setTask ht (fun _ hm => hm) rfl
    · exact absurd hs (by simp)

end Steps

/-! ### Delivery -/

section Delivery

variable {cfg : Config} {k : ℤ}

/-- From where the one task is, the listener can get to the message. -/
def Delivers (cfg : Config) (k : ℤ) (t : Task) : Prop :=
  ∀ s, Inv s → s.tasks = [t] → k ∈ s.processQueue.msgTreeMap → Deliverable cfg s k

lemma Deliverable.of_step {s s' : State} {a : Action} (more : List ℤ)
    (hs : step cfg s a = some s') (hmore : s'.received = s.received ++ more)
    (hd : Deliverable cfg s' k) : Deliverable cfg s k := by
  obtain ⟨as, s'', more', hrun, hreceived, hk⟩ := hd
  refine ⟨a :: as, s'', more ++ more', run_cons.mpr ⟨s', hs, hrun⟩, ?_, List.mem_append_right _ hk⟩
  rw [hreceived, hmore, List.append_assoc]

/-- A step of the task alone. -/
lemma Delivers.of_setTask {t t' : Task} (hd : Delivers cfg k t') (a : Action)
    (hstep : ∀ s, Inv s → s.tasks = [t] → step cfg s a = some (s.setTask 0 t')) :
    Delivers cfg k t := by
  intro s h ht hk
  have hs := hstep s h ht
  have hnext : Deliverable cfg (s.setTask 0 t') k := by
    refine hd _ (inv_step h hs) ?_ hk
    rw [State.setTask, ht]
    rfl
  exact hnext.of_step [] hs (List.append_nil _).symm

variable (cfg) in
/-- What a successful batch is followed by. -/
lemma Inv.success {s : State} {msgs : List MessageExt} (h : Inv s)
    (ht : s.tasks = [.consumed msgs]) :
    ∃ s', step cfg s (.processConsumeResult 0 (some .SUCCESS) true) = some s' ∧
      s'.tasks = [.turning] ∧ s'.received = s.received ∧
      ∀ k, k ∈ s'.processQueue.msgTreeMap ↔ k ∈ s.processQueue.msgTreeMap := by
  have hget : s.tasks[0]? = some (.consumed msgs) := by
    rw [ht]
    rfl
  obtain ⟨-, -, -, hbatch⟩ := h.only hget
  obtain ⟨hne, htemp⟩ := hbatch msgs rfl
  obtain ⟨hthrew, hs⟩ := settled h.keyed h.keyedTemp hne htemp true .SUCCESS
  refine ⟨s.processConsumeResult 0 msgs .SUCCESS true, ?_, ?_, ?_, ?_⟩
  · rw [step, hget]
    rfl
  all_goals
    unfold State.processConsumeResult
    dsimp only
    rw [if_neg hthrew, if_pos (show continueConsume true .SUCCESS = true from rfl)]
  · rw [State.setTask]
    dsimp only
    rw [ht]
    rfl
  · rfl
  · exact fun k => (hs.mem k).trans (or_iff_right List.not_mem_nil)

variable (cfg) in
/-- A batch that is taken from a queue with messages. -/
lemma Inv.batch {s : State} (h : Inv s) (ht : s.tasks = [.taking])
    (hsize : s.processQueue.msgTreeMap.size ≠ 0) :
    ∃ msgs s', step cfg s (.takeMessags 0) = some s' ∧ s'.tasks = [.consuming msgs] ∧
      s'.received = s.received ∧
      (∀ k, k ∈ s.processQueue.msgTreeMap ↔
        k ∈ offsets msgs ∨ k ∈ s'.processQueue.msgTreeMap) ∧
      s'.processQueue.msgTreeMap.size < s.processQueue.msgTreeMap.size := by
  have hfront := ProcessQueue.front_takeMessags h.keyed cfg.consumeMessageBatchMaxSize
  rcases ProcessQueue.takeMessags_consuming cfg.pos s.processQueue with ⟨-, hzero, -⟩ | ⟨hne, -⟩
  · exact absurd hzero hsize
  · refine ⟨(s.processQueue.takeMessags cfg.consumeMessageBatchMaxSize).1,
      s.takeMessags cfg.consumeMessageBatchMaxSize 0, ?_, ?_⟩
    · rw [step, ht]
      rfl
    · unfold State.takeMessags
      dsimp only
      rw [if_neg (by simpa using hne), State.setTask]
      dsimp only
      rw [ht]
      refine ⟨rfl, rfl, hfront.mem, ?_⟩
      have hlength := List.length_pos_of_ne_nil hne
      have hsum := hfront.size
      omega

/-- Batch after batch is taken, and the message is in one of them. -/
lemma delivers_taking : Delivers cfg k .taking := by
  intro s
  induction hn : s.processQueue.msgTreeMap.size using Nat.strong_induction_on generalizing s with
  | _ n ih =>
    intro h ht hk
    have hsize : s.processQueue.msgTreeMap.size ≠ 0 := fun hzero =>
      TreeMap.size_eq_zero.mp hzero k hk
    obtain ⟨msgs, s₁, hs₁, ht₁, hreceived₁, hmem₁, hlt₁⟩ := h.batch cfg ht hsize
    have h₁ := inv_step h hs₁
    have hget₁ : s₁.tasks[0]? = some (.consuming msgs) := by
      rw [ht₁]
      rfl
    obtain ⟨s₂, hs₂, hs₂eq⟩ : ∃ s₂, step cfg s₁ (.consumeMessage 0) = some s₂ ∧
        s₂ = { s₁.setTask 0 (.consumed msgs) with received := s₁.received ++ offsets msgs } := by
      refine ⟨_, ?_, rfl⟩
      rw [step, hget₁]
      dsimp only
      rw [h₁.open', if_neg (by decide)]
    have h₂ := inv_step h₁ hs₂
    have hreceived₂ : s₂.received = s.received ++ offsets msgs := by
      rw [hs₂eq, ← hreceived₁]
    refine Deliverable.of_step [] hs₁ (hreceived₁.trans (List.append_nil _).symm) ?_
    rcases (hmem₁ k).mp hk with hmem | hmem
    · refine ⟨[.consumeMessage 0], s₂, offsets msgs, run_cons.mpr ⟨s₂, hs₂, rfl⟩, ?_, hmem⟩
      rw [hs₂eq]
    · -- the batch is finished, and the next one is taken
      have ht₂ : s₂.tasks = [.consumed msgs] := by
        rw [hs₂eq, State.setTask, ht₁]
        rfl
      have hq₂ : s₂.processQueue = s₁.processQueue := by
        rw [hs₂eq]
        rfl
      obtain ⟨s₃, hs₃, ht₃, hreceived₃, hmem₃⟩ := h₂.success cfg ht₂
      have h₃ := inv_step h₂ hs₃
      have hget₃ : s₃.tasks[0]? = some .turning := by
        rw [ht₃]
        rfl
      have hs₄ : step cfg s₃ (.turn 0 .passed) = some (s₃.setTask 0 .taking) := by
        unfold step
        dsimp only
        rw [hget₃]
        dsimp only
        rw [h₃.open', if_neg (by decide)]
      have hsize₃ : (s₃.setTask 0 .taking).processQueue.msgTreeMap.size < n := by
        change s₃.processQueue.msgTreeMap.size < n
        rw [TreeMap.size_eq_of_mem_iff hmem₃, hq₂, ← hn]
        exact hlt₁
      have hd := ih _ hsize₃ (s₃.setTask 0 .taking) rfl (inv_step h₃ hs₄)
        (by rw [State.setTask, ht₃]; rfl) ((hmem₃ k).mpr (by rwa [hq₂]))
      refine Deliverable.of_step (offsets msgs) hs₂ (by rw [hs₂eq]) ?_
      refine Deliverable.of_step [] hs₃ (hreceived₃.trans (List.append_nil _).symm) ?_
      exact Deliverable.of_step [] hs₄ (List.append_nil _).symm hd

lemma delivers_turning : Delivers cfg k .turning := by
  refine Delivers.of_setTask delivers_taking (.turn 0 .passed) fun s h ht => ?_
  unfold step
  rw [ht]
  dsimp only [List.getElem?_cons_zero]
  rw [h.open', if_neg (by decide)]

lemma delivers_queued : Delivers cfg k .queued := by
  refine Delivers.of_setTask delivers_turning (.run 0 true) fun s h ht => ?_
  unfold step
  rw [ht]
  dsimp only [List.getElem?_cons_zero]
  rw [h.open', if_neg (by decide), if_neg (by decide), if_pos (.inr rfl)]

lemma delivers_submitLater : Delivers cfg k .submitLater :=
  Delivers.of_setTask delivers_queued (.submitLater 0) fun s h ht => by
    rw [step, ht]
    rfl

lemma delivers_consumed (msgs : List MessageExt) : Delivers cfg k (.consumed msgs) := by
  intro s h ht hk
  obtain ⟨s', hs, ht', hreceived, htree⟩ := h.success cfg ht
  exact (delivers_turning s' (inv_step h hs) ht' ((htree k).mpr hk)).of_step [] hs
    (hreceived.trans (List.append_nil _).symm)

/-- The one task can get to every message. -/
lemma delivers (t : Task) : Delivers cfg k t := by
  cases t with
  | submitting =>
    exact Delivers.of_setTask delivers_queued (.submit 0) fun s _ ht => by
      rw [step, ht]
      rfl
  | queued => exact delivers_queued
  | turning => exact delivers_turning
  | taking => exact delivers_taking
  | consuming msgs =>
    intro s h ht hk
    have hget : s.tasks[0]? = some (.consuming msgs) := by
      rw [ht]
      rfl
    have hs : step cfg s (.consumeMessage 0) =
        some { s.setTask 0 (.consumed msgs) with received := s.received ++ offsets msgs } := by
      rw [step, hget]
      dsimp only
      rw [h.open', if_neg (by decide)]
    refine Deliverable.of_step (offsets msgs) hs rfl ?_
    refine delivers_consumed msgs _ (inv_step h hs) ?_ hk
    rw [State.setTask]
    dsimp only
    rw [ht]
    rfl
  | consumed msgs => exact delivers_consumed msgs
  | tryLockLater =>
    exact Delivers.of_setTask delivers_submitLater (.tryLock 0) fun s _ ht => by
      rw [step, ht]
      rfl
  | submitLater => exact delivers_submitLater

lemma Inv.oneTask {s : State} (h : Inv s) : OneTask cfg s := by
  have hprefix : s.received <+: taken s.log := ⟨_, h.received⟩
  rcases h.token with ⟨htasks, hidle, hsize⟩ | ⟨t, htasks, hbusy, -⟩
  · refine ⟨?_, ?_, fun hne => absurd hsize hne, fun k hk => ?_, h.in_order, hprefix⟩
    · rw [htasks]
      exact Nat.zero_le 1
    · rw [hidle, htasks]
      decide
    · exact absurd hk (TreeMap.size_eq_zero.mp hsize k)
  · refine ⟨?_, ?_, fun _ => ?_, fun k hk => delivers t s h htasks hk, h.in_order, hprefix⟩
    · rw [htasks]
      exact le_rfl
    · rw [htasks]
      exact iff_of_true hbusy rfl
    · rw [htasks]
      rfl

/-- **One task.** In every run, the mark of an orderly queue stands for its one task, a queue with
messages has it, and the listener is given the messages in their order. -/
theorem one_task {as : List Action} {s : State} (hr : run (step cfg) newState as = some s) :
    OneTask cfg s :=
  (run_inductive (fun _ _ _ h hs => inv_step h hs) inv_new hr : Inv s).oneTask

def clustering : Config := ⟨.CLUSTERING, 1, Nat.one_pos⟩

/-- A batch is put back, the lock is lost, and the messages are consumed after all. -/
def suspendedAndUnlocked : List Action :=
  [.putMessage [⟨1, none⟩, ⟨2, none⟩], .submit 0, .run 0 true, .turn 0 .passed, .takeMessags 0,
    .consumeMessage 0, .processConsumeResult 0 none true, .putMessage [⟨3, none⟩], .submitLater 0,
    .run 0 false, .tryLock 0, .submitLater 0, .run 0 true, .turn 0 .passed, .takeMessags 0,
    .consumeMessage 0, .processConsumeResult 0 (some .SUCCESS) true]

lemma run_suspendedAndUnlocked : ∃ s, run (step clustering) newState suspendedAndUnlocked = some s ∧
    s.received = [1, 1] ∧ s.tasks = [.turning] :=
  ⟨_, rfl, rfl, rfl⟩

theorem one_task_suspended : ∃ s, run (step clustering) newState suspendedAndUnlocked = some s ∧
    OneTask clustering s :=
  have ⟨s, hr, _⟩ := run_suspendedAndUnlocked
  ⟨s, hr, one_task hr⟩

end Delivery

end CloudMQ.OrderlyTasks
