import CloudMQ.PulledMessages
import CloudMQ.Runs

/-!
Orderly consumption of one queue.

A consume request holds the lock of the queue: it takes a batch, has it consumed and finishes it
by the status of the listener. Pulls put messages meanwhile, and a reset of the offset drops the
queue and clears it.
-/

namespace CloudMQ.OrderlyConsume

open CloudMQ.SortedMaps CloudMQ.PulledMessages CloudMQ.Runs

inductive ConsumeOrderlyStatus
  | SUCCESS
  | ROLLBACK
  | COMMIT
  | SUSPEND_CURRENT_QUEUE_A_MOMENT
deriving DecidableEq

/-- How the last operation ended. -/
inductive Outcome
  | returned
  | committed (offset : ℤ)
  | threw
deriving DecidableEq

/-- A batch in the hands of a consume request, and whether the queue was cleared since. -/
structure Batch where
  msgs : List MessageExt
  cleared : Bool := false

/-- The consume request that holds the lock of the queue: none or between two turns of its loop,
past the checks of a turn, or with a batch. -/
inductive Stage
  | waiting
  | checked
  | consuming (b : Batch)

/-- The queue and its consume request; the offsets ever put and ever taken. -/
structure State where
  processQueue : ProcessQueue
  stage : Stage
  outcome : Outcome
  put : List ℤ
  taken : List ℤ

def newState : State := ⟨{}, .waiting, .returned, [], []⟩

inductive Action
  | putMessage (msgs : List MessageExt)
  | check
  | leave
  | takeMessags (batchSize : ℕ)
  | processConsumeResult (autoCommit : Bool) (status : ConsumeOrderlyStatus)
  | abandon
  | setDropped
  | clear

def commitResult (q : ProcessQueue) : ProcessQueue × Outcome :=
  match q.commit with
  | some (q, offset) => (q, .committed offset)
  | none => (q, .threw)

/-- The queue after a batch. The cases of an automatic commit fall through to `SUCCESS`. -/
def processConsumeResult (autoCommit : Bool) (status : ConsumeOrderlyStatus)
    (msgs : List MessageExt) (q : ProcessQueue) : ProcessQueue × Outcome :=
  if autoCommit then
    match status with
    | .COMMIT | .ROLLBACK | .SUCCESS => commitResult q
    | .SUSPEND_CURRENT_QUEUE_A_MOMENT => (q.makeMessageToCosumeAgain msgs, .returned)
  else
    match status with
    | .SUCCESS => (q, .returned)
    | .COMMIT => commitResult q
    | .ROLLBACK => (q.rollback, .returned)
    | .SUSPEND_CURRENT_QUEUE_A_MOMENT => (q.makeMessageToCosumeAgain msgs, .returned)

def Stage.clear : Stage → Stage
  | .consuming b => .consuming { b with cleared := true }
  | stage => stage

/-- Pulled messages come behind all that were pulled before. A request checks that the queue is not
dropped before it takes a batch, and may leave there for other reasons; it lets go of a batch when
it finds the queue dropped. Only a reset of the offset clears a queue, which it has dropped. -/
def step (s : State) : Action → Option State
  | .putMessage msgs =>
    if (offsets msgs).Pairwise (· < ·) ∧ ∀ k ∈ offsets msgs, ∀ k' ∈ s.put, k' < k then
      some { s with
        processQueue := (s.processQueue.putMessage msgs).1
        outcome := .returned
        put := s.put ++ offsets msgs }
    else none
  | .check =>
    match s.stage with
    | .waiting => if s.processQueue.dropped then none else some { s with stage := .checked }
    | _ => none
  | .leave =>
    match s.stage with
    | .checked => some { s with stage := .waiting }
    | _ => none
  | .takeMessags batchSize =>
    match s.stage with
    | .checked =>
      let r := s.processQueue.takeMessags batchSize
      some { s with
        processQueue := r.2
        stage := if r.1.isEmpty then .waiting else .consuming ⟨r.1, false⟩
        outcome := .returned
        taken := s.taken ++ offsets r.1 }
    | _ => none
  | .processConsumeResult autoCommit status =>
    match s.stage with
    | .consuming b =>
      let r := processConsumeResult autoCommit status b.msgs s.processQueue
      some { s with processQueue := r.1, stage := .waiting, outcome := r.2 }
    | _ => none
  | .abandon =>
    match s.stage with
    | .consuming _ => if s.processQueue.dropped then some { s with stage := .waiting } else none
    | _ => none
  | .setDropped => some { s with processQueue := s.processQueue.setDropped true }
  | .clear =>
    if s.processQueue.dropped then
      some { s with
        processQueue := s.processQueue.clear
        stage := s.stage.clear
        outcome := .returned }
    else none

/-! ### The promise -/

/-- A commit returns an offset behind all messages taken and not put back, and before all that are
left. -/
def Outcome.Sound (s : State) : Outcome → Prop
  | .returned => True
  | .committed offset =>
    (∀ k ∈ s.taken, k ∉ s.processQueue.msgTreeMap → k < offset) ∧
      ∀ k ∈ s.processQueue.msgTreeMap, offset ≤ k
  | .threw => False

/-- The counter counts both maps, the messages taken come before those left, and the last operation
was sound. -/
structure Sound (s : State) : Prop where
  count : s.processQueue.msgCount =
    s.processQueue.msgTreeMap.size + s.processQueue.msgTreeMapTemp.size
  below : ∀ k ∈ s.processQueue.msgTreeMapTemp, ∀ k' ∈ s.processQueue.msgTreeMap, k < k'
  outcome : s.outcome.Sound s

/-- The status leads to `commit` or to `makeMessageToCosumeAgain`. -/
def settles (autoCommit : Bool) (status : ConsumeOrderlyStatus) : Bool :=
  autoCommit || status = .COMMIT || status = .SUSPEND_CURRENT_QUEUE_A_MOMENT

/-- A batch that was cleared is not finished with such a status. -/
def FinishedInTime (s : State) : Action → Prop
  | .processConsumeResult autoCommit status =>
    ∀ b, s.stage = .consuming b → b.cleared = true → settles autoCommit status = false
  | _ => True

/-! ### The invariant -/

def Live (q : ProcessQueue) (k : ℤ) : Prop := k ∈ q.msgTreeMap ∨ k ∈ q.msgTreeMapTemp

/-- What is known of the batch in hand: all of it is taken, behind what was taken before, or it was
cleared. -/
def Batch.Fits (b : Batch) (q : ProcessQueue) : Prop :=
  if b.cleared then (∀ k, k ∉ q.msgTreeMapTemp) ∧ ∀ k ∈ offsets b.msgs, k ∉ q.msgTreeMap
  else (∀ k ∈ offsets b.msgs, k ∈ q.msgTreeMapTemp) ∧
    ∀ k ∈ q.msgTreeMapTemp, k ∉ offsets b.msgs → ∀ k' ∈ offsets b.msgs, k < k'

structure Inv (s : State) : Prop where
  count : s.processQueue.msgCount =
    s.processQueue.msgTreeMap.size + s.processQueue.msgTreeMapTemp.size
  keyed : ∀ e ∈ s.processQueue.msgTreeMap.entries, e.2.queueOffset = e.1
  keyedTemp : ∀ e ∈ s.processQueue.msgTreeMapTemp.entries, e.2.queueOffset = e.1
  below : ∀ k ∈ s.processQueue.msgTreeMapTemp, ∀ k' ∈ s.processQueue.msgTreeMap, k < k'
  live_put : ∀ k, Live s.processQueue k → k ∈ s.put
  taken_put : ∀ k ∈ s.taken, k ∈ s.put
  gone : ∀ k ∈ s.taken, Live s.processQueue k ∨ ∀ k', Live s.processQueue k' → k < k'
  batch : ∀ b, s.stage = .consuming b → b.msgs ≠ [] ∧ (offsets b.msgs).Pairwise (· < ·) ∧
    (∀ k ∈ offsets b.msgs, k ∈ s.put) ∧ b.Fits s.processQueue
  outcome : s.outcome.Sound s

lemma Inv.sound {s : State} (h : Inv s) : Sound s := ⟨h.count, h.below, h.outcome⟩

lemma inv_new : Inv newState where
  count := rfl
  keyed := fun e he => absurd he List.not_mem_nil
  keyedTemp := fun e he => absurd he List.not_mem_nil
  below := fun k hk => absurd hk (TreeMap.not_mem_empty k)
  live_put := fun k hk => hk.elim (absurd · (TreeMap.not_mem_empty k))
    (absurd · (TreeMap.not_mem_empty k))
  taken_put := fun k hk => absurd hk List.not_mem_nil
  gone := fun k hk => absurd hk List.not_mem_nil
  batch := fun b hb => by cases hb
  outcome := trivial

section

variable {s : State}

lemma pairwise_nodup {l : List ℤ} (h : l.Pairwise (· < ·)) : l.Nodup := h.imp ne_of_lt

/-- The state between two operations of a request, with its last outcome. -/
lemma Inv.setStage (h : Inv s) {stage : Stage} (hstage : ∀ b, stage ≠ .consuming b) :
    Inv { s with stage := stage } :=
  { h with batch := fun b hb => absurd hb (hstage b), outcome := h.outcome }

lemma Inv.setDropped (h : Inv s) :
    Inv { s with processQueue := s.processQueue.setDropped true } :=
  { h with batch := h.batch, outcome := h.outcome }

lemma Inv.putMessage (h : Inv s) {msgs : List MessageExt}
    (hnew : ∀ k ∈ offsets msgs, ∀ k' ∈ s.put, k' < k) :
    Inv { s with
      processQueue := (s.processQueue.putMessage msgs).1
      outcome := .returned
      put := s.put ++ offsets msgs } := by
  have htemp := ProcessQueue.msgTreeMapTemp_putMessage (q := s.processQueue) msgs
  have hmem : ∀ k, k ∈ (s.processQueue.putMessage msgs).1.msgTreeMap ↔
      k ∈ offsets msgs ∨ k ∈ s.processQueue.msgTreeMap := fun _ => ProcessQueue.mem_putMessage
  have hnotin : ∀ k ∈ offsets msgs, ¬ Live s.processQueue k := fun k hk hlive =>
    lt_irrefl k (hnew k hk k (h.live_put k hlive))
  have hlive : ∀ k, Live (s.processQueue.putMessage msgs).1 k ↔
      k ∈ offsets msgs ∨ Live s.processQueue k := fun k => by
    rw [Live, hmem, htemp, Live, or_assoc]
  refine ⟨?_, ?_, ?_, ?_, ?_, ?_, ?_, ?_, trivial⟩
  · have hcount := ProcessQueue.msgCount_putMessage (q := s.processQueue) msgs
    have hold := h.count
    dsimp only at hcount ⊢
    rw [htemp]
    omega
  · intro e he
    rw [ProcessQueue.msgTreeMap_putMessage] at he
    rcases TreeMap.mem_entries_putAll he with he | he
    · obtain ⟨m, -, rfl⟩ := List.mem_map.mp he
      rfl
    · exact h.keyed e he
  · rw [htemp]
    exact h.keyedTemp
  · rw [htemp]
    intro k hk k' hk'
    rcases (hmem k').mp hk' with hk' | hk'
    · exact hnew k' hk' k (h.live_put k (.inr hk))
    · exact h.below k hk k' hk'
  · intro k hk
    rcases (hlive k).mp hk with hk | hk
    · exact List.mem_append_right s.put hk
    · exact List.mem_append_left _ (h.live_put k hk)
  · exact fun k hk => List.mem_append_left _ (h.taken_put k hk)
  · intro k hk
    rcases h.gone k hk with hgone | hgone
    · exact .inl ((hlive k).mpr (.inr hgone))
    · refine .inr fun k' hk' => ?_
      rcases (hlive k').mp hk' with hk' | hk'
      · exact hnew k' hk' k (h.taken_put k hk)
      · exact hgone k' hk'
  · intro b hb
    obtain ⟨hne, hpair, hput, hfits⟩ := h.batch b hb
    refine ⟨hne, hpair, fun k hk => List.mem_append_left _ (hput k hk), ?_⟩
    rw [Batch.Fits, htemp] at *
    split_ifs at hfits ⊢
    · refine ⟨hfits.1, fun k hk hin => ?_⟩
      rcases (hmem k).mp hin with hin | hin
      · exact lt_irrefl k (hnew k hin k (hput k hk))
      · exact hfits.2 k hk hin
    · exact hfits

lemma Inv.takeMessags (h : Inv s) (batchSize : ℕ) :
    Inv { s with
      processQueue := (s.processQueue.takeMessags batchSize).2
      stage := if (s.processQueue.takeMessags batchSize).1.isEmpty then .waiting
        else .consuming ⟨(s.processQueue.takeMessags batchSize).1, false⟩
      outcome := .returned
      taken := s.taken ++ offsets (s.processQueue.takeMessags batchSize).1 } := by
  obtain ⟨hpair, hfirst, hsplit, hmemTemp, hkeyed, hkeyedTemp, hsize⟩ :=
    ProcessQueue.front_takeMessags h.keyed batchSize
  obtain ⟨hsizeTemp, hcount⟩ := ProcessQueue.size_takeMessags
    (fun k hk hin => lt_irrefl k (h.below k hk k hin)) batchSize
  generalize s.processQueue.takeMessags batchSize = r at *
  have hlive : ∀ k, Live r.2 k ↔ Live s.processQueue k := fun k => by
    rw [Live, hmemTemp, Live, hsplit]
    tauto
  refine ⟨?_, hkeyed, hkeyedTemp h.keyedTemp, ?_, ?_, ?_, ?_, ?_, trivial⟩
  · have hold := h.count
    dsimp only
    rw [hcount]
    omega
  · intro k hk k' hk'
    rcases (hmemTemp k).mp hk with hk | hk
    · exact hfirst k hk k' hk'
    · exact h.below k hk k' ((hsplit k').mpr (.inr hk'))
  · exact fun k hk => h.live_put k ((hlive k).mp hk)
  · intro k hk
    rcases List.mem_append.mp hk with hk | hk
    · exact h.taken_put k hk
    · exact h.live_put k (.inl ((hsplit k).mpr (.inl hk)))
  · intro k hk
    rcases List.mem_append.mp hk with hk | hk
    · exact (h.gone k hk).imp (hlive k).mpr fun hgone k' hk' => hgone k' ((hlive k').mp hk')
    · exact .inl (.inr ((hmemTemp k).mpr (.inl hk)))
  · intro b hb
    by_cases hempty : r.1.isEmpty
    · rw [if_pos hempty] at hb
      cases hb
    · rw [if_neg hempty, Stage.consuming.injEq] at hb
      subst hb
      refine ⟨fun hnil => hempty (List.isEmpty_iff.mpr hnil), hpair, ?_, ?_⟩
      · exact fun k hk => h.live_put k (.inl ((hsplit k).mpr (.inl hk)))
      · refine ⟨fun k hk => (hmemTemp k).mpr (.inl hk), fun k hk hnot k' hk' => ?_⟩
        have hold := ((hmemTemp k).mp hk).resolve_left hnot
        exact h.below k hold k' ((hsplit k').mpr (.inl hk'))

lemma Inv.clear (h : Inv s) :
    Inv { s with
      processQueue := s.processQueue.clear
      stage := s.stage.clear
      outcome := .returned } := by
  have hdead : ∀ k, ¬ Live s.processQueue.clear k := fun k hk =>
    hk.elim (TreeMap.not_mem_empty k) (TreeMap.not_mem_empty k)
  refine ⟨rfl, fun e he => absurd he List.not_mem_nil, fun e he => absurd he List.not_mem_nil,
    fun k hk => absurd hk (TreeMap.not_mem_empty k), fun k hk => absurd hk (hdead k), h.taken_put,
    fun k _ => .inr fun k' hk' => absurd hk' (hdead k'), fun b hb => ?_, trivial⟩
  cases hstage : s.stage with
  | waiting => rw [hstage] at hb; cases hb
  | checked => rw [hstage] at hb; cases hb
  | consuming b' =>
    rw [hstage, Stage.clear, Stage.consuming.injEq] at hb
    subst hb
    obtain ⟨hne, hpair, hput, -⟩ := h.batch b' hstage
    exact ⟨hne, hpair, hput, fun k => TreeMap.not_mem_empty k,
      fun k _ => TreeMap.not_mem_empty k⟩

/-- Behind `commit` only what is still in the map is left. -/
lemma Inv.commit (h : Inv s) {b : Batch} (hstage : s.stage = .consuming b)
    (hcleared : b.cleared = false) :
    Inv { s with
      processQueue := (commitResult s.processQueue).1
      stage := .waiting
      outcome := (commitResult s.processQueue).2 } := by
  obtain ⟨hne, -, -, hfits⟩ := h.batch b hstage
  rw [Batch.Fits, if_neg (by simp [hcleared])] at hfits
  obtain ⟨msg, rest, hmsgs⟩ := List.exists_cons_of_ne_nil hne
  have htaken : msg.queueOffset ∈ s.processQueue.msgTreeMapTemp :=
    hfits.1 _ (by simp [offsets, hmsgs])
  obtain ⟨last, hlast⟩ : ∃ k, s.processQueue.msgTreeMapTemp.lastKey = some k := by
    refine Option.ne_none_iff_exists'.mp fun hnone => ?_
    exact TreeMap.size_eq_zero.mp (TreeMap.lastKey_eq_none.mp hnone) _ htaken
  have hresult : commitResult s.processQueue =
      ({ s.processQueue with
          msgCount := s.processQueue.msgCount + s.processQueue.msgTreeMapTemp.size * -1
          msgTreeMapTemp := ∅ }, .committed (last + 1)) := by
    rw [commitResult, ProcessQueue.commit, hlast]
    rfl
  rw [hresult]
  have hlastTemp := TreeMap.lastKey_mem hlast
  have hlive : ∀ k, k ∈ s.processQueue.msgTreeMap ∨ k ∈ (∅ : TreeMap ℤ MessageExt) →
      k ∈ s.processQueue.msgTreeMap := fun k hk => hk.resolve_right (TreeMap.not_mem_empty k)
  refine ⟨?_, h.keyed, fun e he => absurd he List.not_mem_nil,
    fun k hk => absurd hk (TreeMap.not_mem_empty k), fun k hk => h.live_put k (.inl (hlive k hk)),
    h.taken_put, ?_, fun b hb => (by cases hb), ?_, ?_⟩
  · have hold := h.count
    dsimp only
    rw [TreeMap.size_empty]
    omega
  · intro k hk
    rcases h.gone k hk with (hin | hin) | hgone
    · exact .inl (.inl hin)
    · exact .inr fun k' hk' => h.below k hin k' (hlive k' hk')
    · exact .inr fun k' hk' => hgone k' (.inl (hlive k' hk'))
  · intro k hk hnot
    rcases h.gone k hk with (hin | hin) | hgone
    · exact absurd hin hnot
    · exact Int.lt_add_one_of_le (TreeMap.le_lastKey hlast hin)
    · exact (hgone last (.inr hlastTemp)).trans (lt_add_one last)
  · exact fun k hk => Int.add_one_le_of_lt (h.below last hlastTemp k hk)

/-- `commit` throws behind a clear. -/
lemma commit_cleared {q : ProcessQueue} (h : ∀ k, k ∉ q.msgTreeMapTemp) :
    commitResult q = (q, .threw) := by
  rw [commitResult, ProcessQueue.commit, TreeMap.lastKey_eq_none.mpr (TreeMap.size_eq_zero.mpr h)]
  rfl

lemma Inv.consumeAgain (h : Inv s) {b : Batch} (hstage : s.stage = .consuming b)
    (hcleared : b.cleared = false) :
    Inv { s with
      processQueue := s.processQueue.makeMessageToCosumeAgain b.msgs
      stage := .waiting
      outcome := .returned } := by
  obtain ⟨-, hpair, -, hfits⟩ := h.batch b hstage
  rw [Batch.Fits, if_neg (by simp [hcleared])] at hfits
  obtain ⟨hin, hbehind⟩ := hfits
  obtain ⟨htree, htemp, hcount, -⟩ := ProcessQueue.again_fold b.msgs s.processQueue
  generalize s.processQueue.makeMessageToCosumeAgain b.msgs = q at *
  have hmemTree : ∀ k, k ∈ q.msgTreeMap ↔ k ∈ offsets b.msgs ∨ k ∈ s.processQueue.msgTreeMap :=
    fun k => by rw [htree, TreeMap.mem_putAll, map_fst_entries]
  have hmemTemp : ∀ k, k ∈ q.msgTreeMapTemp ↔
      k ∉ offsets b.msgs ∧ k ∈ s.processQueue.msgTreeMapTemp := fun k => by
    rw [htemp, TreeMap.mem_removeAll]
  have hlive : ∀ k, Live q k ↔ Live s.processQueue k := by
    intro k
    rw [Live, hmemTree, hmemTemp, Live]
    constructor
    · rintro ((hk | hk) | hk)
      · exact .inr (hin k hk)
      · exact .inl hk
      · exact .inr hk.2
    · by_cases hk : k ∈ offsets b.msgs
      · exact fun _ => .inl (.inl hk)
      · exact fun hold => hold.imp .inr fun hold => ⟨hk, hold⟩
  refine ⟨?_, ?_, ?_, ?_, fun k hk => h.live_put k ((hlive k).mp hk), h.taken_put, ?_,
    fun b hb => (by cases hb), trivial⟩
  · have hsize : q.msgTreeMap.size = s.processQueue.msgTreeMap.size + b.msgs.length := by
      rw [htree, ← length_entries]
      refine TreeMap.size_putAll ?_ fun e he hmem => ?_
      · exact (map_fst_entries b.msgs).symm ▸ pairwise_nodup hpair
      · refine lt_irrefl e.1 (h.below e.1 (hin e.1 ?_) e.1 hmem)
        exact map_fst_entries b.msgs ▸ List.mem_map_of_mem he
    have hsize' := TreeMap.size_removeAll (pairwise_nodup hpair) hin
    rw [← htemp, offsets, List.length_map] at hsize'
    have hold := h.count
    dsimp only
    rw [hcount]
    omega
  · intro e he
    rw [htree] at he
    rcases TreeMap.mem_entries_putAll he with he | he
    · obtain ⟨m, -, rfl⟩ := List.mem_map.mp he
      rfl
    · exact h.keyed e he
  · intro e he
    rw [htemp] at he
    exact h.keyedTemp e (TreeMap.mem_entries_removeAll he)
  · intro k hk k' hk'
    obtain ⟨hnot, hk⟩ := (hmemTemp k).mp hk
    rcases (hmemTree k').mp hk' with hk' | hk'
    · exact hbehind k hk hnot k' hk'
    · exact h.below k hk k' hk'
  · exact fun k hk =>
      (h.gone k hk).imp (hlive k).mpr fun hgone k' hk' => hgone k' ((hlive k').mp hk')

/-- Behind a clear the messages come back without being counted. -/
lemma Inv.consumeAgain_cleared (h : Inv s) {b : Batch} (hstage : s.stage = .consuming b)
    (hcleared : b.cleared = true) :
    (s.processQueue.makeMessageToCosumeAgain b.msgs).msgCount <
      (s.processQueue.makeMessageToCosumeAgain b.msgs).msgTreeMap.size := by
  obtain ⟨hne, hpair, -, hfits⟩ := h.batch b hstage
  rw [Batch.Fits, if_pos hcleared] at hfits
  obtain ⟨htree, -, hcount, -⟩ := ProcessQueue.again_fold b.msgs s.processQueue
  have hsize : (s.processQueue.makeMessageToCosumeAgain b.msgs).msgTreeMap.size =
      s.processQueue.msgTreeMap.size + b.msgs.length := by
    rw [htree, ← length_entries]
    refine TreeMap.size_putAll ?_ fun e he => hfits.2 e.1 ?_
    · exact (map_fst_entries b.msgs).symm ▸ pairwise_nodup hpair
    · exact map_fst_entries b.msgs ▸ List.mem_map_of_mem he
  have hempty := TreeMap.size_eq_zero.mpr hfits.1
  have hpos := List.length_pos_iff.mpr hne
  have hold := h.count
  rw [hcount, hsize]
  omega

lemma Inv.rollback (h : Inv s) :
    Inv { s with
      processQueue := s.processQueue.rollback, stage := .waiting, outcome := .returned } := by
  have hmem : ∀ k, k ∈ s.processQueue.rollback.msgTreeMap ↔
      k ∈ s.processQueue.msgTreeMapTemp ∨ k ∈ s.processQueue.msgTreeMap := fun k =>
    TreeMap.mem_putAll
  have hlive : ∀ k, Live s.processQueue.rollback k ↔ Live s.processQueue k := by
    intro k
    rw [Live, hmem, Live]
    constructor
    · rintro ((hk | hk) | hk)
      · exact .inr hk
      · exact .inl hk
      · exact absurd hk (TreeMap.not_mem_empty k)
    · exact fun hk => .inl hk.symm
  refine ⟨?_, ?_, fun e he => absurd he List.not_mem_nil,
    fun k hk => absurd hk (TreeMap.not_mem_empty k), fun k hk => h.live_put k ((hlive k).mp hk),
    h.taken_put, ?_, fun b hb => (by cases hb), trivial⟩
  · have hsize : s.processQueue.rollback.msgTreeMap.size =
        s.processQueue.msgTreeMap.size + s.processQueue.msgTreeMapTemp.size :=
      TreeMap.size_putAll s.processQueue.msgTreeMapTemp.keys_nodup fun e he hin =>
        lt_irrefl e.1 (h.below e.1 (TreeMap.mem_of_mem_entries he) e.1 hin)
    have hold := h.count
    dsimp only
    rw [hsize]
    exact hold.trans (by push_cast [ProcessQueue.rollback, TreeMap.size_empty]; ring)
  · intro e he
    rcases TreeMap.mem_entries_putAll he with he | he
    · exact h.keyedTemp e he
    · exact h.keyed e he
  · exact fun k hk =>
      (h.gone k hk).imp (hlive k).mpr fun hgone k' hk' => hgone k' ((hlive k').mp hk')

/-- What a status leads to. -/
lemma processConsumeResult_cases (autoCommit : Bool) (status : ConsumeOrderlyStatus)
    (msgs : List MessageExt) (q : ProcessQueue) :
    (settles autoCommit status = true ∧
      (processConsumeResult autoCommit status msgs q = commitResult q ∨
        processConsumeResult autoCommit status msgs q =
          (q.makeMessageToCosumeAgain msgs, .returned))) ∨
    (settles autoCommit status = false ∧
      (processConsumeResult autoCommit status msgs q = (q, .returned) ∨
        processConsumeResult autoCommit status msgs q = (q.rollback, .returned))) := by
  cases autoCommit <;> cases status <;> simp [processConsumeResult, settles]

theorem inv_step {s' : State} {a : Action} (h : Inv s) (hok : FinishedInTime s a)
    (hs : step s a = some s') : Inv s' := by
  cases a with
  | putMessage msgs =>
    obtain ⟨hcond, hs⟩ := Option.ite_none_right_eq_some.mp hs
    cases hs
    exact h.putMessage hcond.2
  | check =>
    cases hstage : s.stage <;> simp only [step, hstage] at hs
    · obtain ⟨-, hs⟩ := Option.ite_none_left_eq_some.mp hs
      cases hs
      exact h.setStage fun b hb => by cases hb
    all_goals cases hs
  | leave =>
    cases hstage : s.stage <;> simp only [step, hstage] at hs
    all_goals cases hs
    exact h.setStage fun b hb => by cases hb
  | takeMessags batchSize =>
    cases hstage : s.stage <;> simp only [step, hstage] at hs
    all_goals cases hs
    exact h.takeMessags batchSize
  | processConsumeResult autoCommit status =>
    cases hstage : s.stage with
    | consuming b =>
      simp only [step, hstage, Option.some.injEq] at hs
      subst hs
      rcases processConsumeResult_cases autoCommit status b.msgs s.processQueue with
        ⟨hsettles, hr⟩ | ⟨-, hr⟩
      · have hcleared : b.cleared = false := by
          by_contra hne
          have := hok b hstage (Bool.eq_true_of_not_eq_false hne)
          rw [hsettles] at this
          cases this
        rcases hr with hr | hr <;> rw [hr]
        · exact h.commit hstage hcleared
        · exact h.consumeAgain hstage hcleared
      · rcases hr with hr | hr <;> rw [hr]
        · exact { h with batch := fun b hb => (by cases hb), outcome := trivial }
        · exact h.rollback
    | _ => simp [step, hstage] at hs
  | abandon =>
    cases hstage : s.stage <;> simp only [step, hstage] at hs
    · cases hs
    · cases hs
    · obtain ⟨-, hs⟩ := Option.ite_none_right_eq_some.mp hs
      cases hs
      exact h.setStage fun b hb => by cases hb
  | setDropped =>
    cases hs
    exact h.setDropped
  | clear =>
    obtain ⟨-, hs⟩ := Option.ite_none_right_eq_some.mp hs
    cases hs
    exact h.clear

/-- A cleared batch that is settled breaks the promise at once. -/
lemma Inv.finishedInTime {a : Action} (h : Inv s) (hsound : ∀ s', step s a = some s' → Sound s') :
    FinishedInTime s a := by
  cases a with
  | processConsumeResult autoCommit status =>
    intro b hstage hcleared
    have hafter := hsound _ (show step s (.processConsumeResult autoCommit status) = some _ by
      rw [step, hstage])
    rcases processConsumeResult_cases autoCommit status b.msgs s.processQueue with
      ⟨-, hr | hr⟩ | ⟨hsettles, -⟩
    · -- `commit` has thrown
      rw [hr] at hafter
      obtain ⟨-, -, -, hfits⟩ := h.batch b hstage
      rw [Batch.Fits, if_pos hcleared] at hfits
      have hthrew := hafter.outcome
      rw [commit_cleared hfits.1] at hthrew
      exact hthrew.elim
    · -- the counter misses the messages put back
      rw [hr] at hafter
      have hcount := hafter.count
      have hless := h.consumeAgain_cleared hstage hcleared
      dsimp only at hcount
      omega
    · exact hsettles
  | _ => trivial

end

/-- **The orderly process queue.** The counter, the order of the two maps, the absence of throws and
the offsets of commits are right all along a run exactly when no cleared batch is finished with a
status that leads to `commit` or to `makeMessageToCosumeAgain`. -/
theorem orderly_process_queue (as : List Action) :
    (∀ as', as' <+: as → ∀ s, run step newState as' = some s → Sound s) ↔
      Meets step FinishedInTime newState as :=
  holds_along_iff (fun _ _ _ => inv_step) (fun _ => Inv.sound) (fun _ _ => Inv.finishedInTime)
    inv_new

/-- The state after a run. -/
def after (as : List Action) : State := (run step newState as).getD newState

/-- A reset between the consumption of a batch and its `commit`. -/
def resetWhileConsuming : List Action :=
  [.putMessage [⟨5, none⟩], .check, .takeMessags 1, .setDropped, .clear,
    .processConsumeResult true .SUCCESS]

theorem orderly_process_queue_reset :
    ¬ ∀ as s, run step newState as = some s → Sound s := by
  intro h
  have hsound := h resetWhileConsuming (after resetWhileConsuming) rfl
  exact hsound.outcome

end CloudMQ.OrderlyConsume
