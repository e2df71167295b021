import CloudMQ.Lists
import CloudMQ.PulledMessages
import CloudMQ.Runs

/-!
Concurrent consumption of one queue in a cluster.

Pulled messages are split into consume requests, which threads finish in any order. A request
removes what was consumed or sent back from the queue, which tells an offset, and writes this offset
to the offset store later.
-/

namespace CloudMQ.ConcurrentConsume

open CloudMQ.Lists CloudMQ.SortedMaps CloudMQ.PulledMessages CloudMQ.Runs

inductive ConsumeConcurrentlyStatus
  | CONSUME_SUCCESS
  | RECONSUME_LATER
deriving DecidableEq

/-- A request that was submitted, that sends messages back from an index on, that is about to remove
messages, to write an offset, or that is over. -/
inductive ConsumeStage
  | submitted
  | sendingBack (i : ℕ) (msgBackFailed : List MessageExt)
  | removing
  | updating (offset : ℤ)
  | ended

structure ConsumeRequest where
  msgs : List MessageExt
  stage : ConsumeStage

/-- The pull request of the queue: waiting for an answer, with messages that are put but not
submitted, about to look at the count of messages, or to write an offset. -/
inductive PullStage
  | pulling
  | submitting (msgs : List MessageExt)
  | correcting
  | updating (offset : ℤ)

/-- The queue, its pull request and its entry in the offset store; the consume requests ever
submitted, and the messages to submit later. `pulled` has the offsets of all messages, `finished`
those of the messages acknowledged or sent back. -/
structure State where
  processQueue : ProcessQueue
  nextOffset : ℤ
  pullStage : PullStage
  offsetStore : Option ℤ
  requests : List ConsumeRequest
  laters : List (List MessageExt)
  pulled : List ℤ
  finished : List ℤ

/-- A queue is pulled from the offset that the broker has for the group, which is put into the
store, or else from where the configuration says. -/
def computePullFromWhere (lastOffset : Option ℤ) (otherwise : ℤ) : State where
  processQueue := {}
  nextOffset := lastOffset.getD otherwise
  pullStage := .pulling
  offsetStore := lastOffset
  requests := []
  laters := []
  pulled := []
  finished := []

inductive Action
  | found (msgs : List MessageExt) (nextBeginOffset : ℤ)
  | submitConsumeRequest (consumeBatchSize : ℕ)
  | noNewMsg (nextBeginOffset : ℤ)
  | correctTagsOffset
  | updateTagsOffset
  | consumeMessage (i : ℕ) (status : ConsumeConcurrentlyStatus) (ackIndex : ℤ)
  | sendMessageBack (i : ℕ) (result : Bool)
  | submitConsumeRequestLater (i : ℕ)
  | removeMessage (i : ℕ)
  | updateOffset (i : ℕ)
  | resubmit (i : ℕ) (consumeBatchSize : ℕ)

/-- `updateOffset`, increasing only. -/
def increaseOnly (offsetOld : Option ℤ) (offset : ℤ) : Option ℤ :=
  match offsetOld with
  | none => some offset
  | some offsetOld => some (max offsetOld offset)

def submitConsumeRequest (consumeBatchSize : ℕ) (msgs : List MessageExt) : List ConsumeRequest :=
  let batches := if msgs.length ≤ consumeBatchSize then [msgs] else msgs.toChunks consumeBatchSize
  batches.map fun msgs => ⟨msgs, .submitted⟩

/-- How many messages of a request are acknowledged; `none` is an index that throws. -/
def acknowledged (status : ConsumeConcurrentlyStatus) (ackIndex : ℤ) (size : ℕ) : Option ℕ :=
  match status with
  | .CONSUME_SUCCESS =>
    let ackIndex := if (size : ℤ) ≤ ackIndex then (size : ℤ) - 1 else ackIndex
    if ackIndex < -1 then none else some (ackIndex + 1).toNat
  | .RECONSUME_LATER => some 0

/-- The step of each thread. The broker answers a pull with messages from the offset asked for on,
in their order, and with an offset behind them. A batch has at least one message. -/
def step (s : State) : Action → Option State
  | .found msgs nextBeginOffset =>
    match s.pullStage with
    | .pulling =>
      if (offsets msgs).Pairwise (· < ·) ∧
          (∀ k ∈ offsets msgs, s.nextOffset ≤ k ∧ k < nextBeginOffset) ∧
          s.nextOffset ≤ nextBeginOffset then
        if msgs.isEmpty then some { s with nextOffset := nextBeginOffset }
        else some { s with
          processQueue := (s.processQueue.putMessage msgs).1
          nextOffset := nextBeginOffset
          pullStage := .submitting msgs
          pulled := s.pulled ++ offsets msgs }
      else none
    | _ => none
  | .submitConsumeRequest consumeBatchSize =>
    match s.pullStage with
    | .submitting msgs =>
      if consumeBatchSize = 0 then none
      else some { s with
        pullStage := .pulling
        requests := s.requests ++ submitConsumeRequest consumeBatchSize msgs }
    | _ => none
  | .noNewMsg nextBeginOffset =>
    match s.pullStage with
    | .pulling =>
      if s.nextOffset ≤ nextBeginOffset then
        some { s with nextOffset := nextBeginOffset, pullStage := .correcting }
      else none
    | _ => none
  | .correctTagsOffset =>
    match s.pullStage with
    | .correcting =>
      some { s with
        pullStage := if s.processQueue.msgCount = 0 then .updating s.nextOffset else .pulling }
    | _ => none
  | .updateTagsOffset =>
    match s.pullStage with
    | .updating offset =>
      some { s with pullStage := .pulling, offsetStore := increaseOnly s.offsetStore offset }
    | _ => none
  | .consumeMessage i status ackIndex =>
    match s.requests[i]? with
    | some ⟨msgs, .submitted⟩ =>
      if msgs.isEmpty then some { s with requests := s.requests.set i ⟨msgs, .ended⟩ }
      else
        match acknowledged status ackIndex msgs.length with
        | some ok =>
          some { s with
            requests := s.requests.set i ⟨msgs, .sendingBack ok []⟩
            finished := s.finished ++ offsets (msgs.take ok) }
        | none => some { s with requests := s.requests.set i ⟨msgs, .ended⟩ }
    | _ => none
  | .sendMessageBack i result =>
    match s.requests[i]? with
    | some ⟨msgs, .sendingBack j msgBackFailed⟩ =>
      match msgs[j]? with
      | some msg =>
        if result then
          some { s with
            requests := s.requests.set i ⟨msgs, .sendingBack (j + 1) msgBackFailed⟩
            finished := s.finished ++ [msg.queueOffset] }
        else
          some { s with
            requests := s.requests.set i ⟨msgs, .sendingBack (j + 1) (msgBackFailed ++ [msg])⟩ }
      | none => none
    | _ => none
  | .submitConsumeRequestLater i =>
    match s.requests[i]? with
    | some ⟨msgs, .sendingBack j msgBackFailed⟩ =>
      if j < msgs.length then none
      else if msgBackFailed.isEmpty then
        some { s with requests := s.requests.set i ⟨msgs, .removing⟩ }
      else
        some { s with
          requests := s.requests.set i ⟨msgs.filter (· ∉ msgBackFailed), .removing⟩
          laters := s.laters ++ [msgBackFailed] }
    | _ => none
  | .removeMessage i =>
    match s.requests[i]? with
    | some ⟨msgs, .removing⟩ =>
      let (processQueue, offset) := s.processQueue.removeMessage msgs
      some { s with
        processQueue
        requests := s.requests.set i ⟨msgs, if 0 ≤ offset then .updating offset else .ended⟩ }
    | _ => none
  | .updateOffset i =>
    match s.requests[i]? with
    | some ⟨msgs, .updating offset⟩ =>
      some { s with
        requests := s.requests.set i ⟨msgs, .ended⟩
        offsetStore := increaseOnly s.offsetStore offset }
    | _ => none
  | .resubmit i consumeBatchSize =>
    match s.laters[i]? with
    | some msgs =>
      if consumeBatchSize = 0 then none
      else some { s with
        requests := s.requests ++ submitConsumeRequest consumeBatchSize msgs
        laters := s.laters.eraseIdx i }
    | none => none

/-! ### The promise -/

/-- A message that was pulled, and neither acknowledged nor sent back. -/
def Unfinished (s : State) (k : ℤ) : Prop := k ∈ s.pulled ∧ k ∉ s.finished

/-- The offset in the store is not behind any unfinished message, and the messages are counted. -/
structure AtLeastOnce (s : State) : Prop where
  stored : ∀ offset, s.offsetStore = some offset → ∀ k, Unfinished s k → offset ≤ k
  counted : s.processQueue.msgCount = s.processQueue.msgTreeMap.size

/-! ### The invariant -/

/-- An offset that is in the store or on its way there. -/
def Reported (s : State) (offset : ℤ) : Prop :=
  s.offsetStore = some offset ∨ (∃ r ∈ s.requests, r.stage = .updating offset) ∨
  s.pullStage = .updating offset

/-- What a request has passed by is finished or is not removed. -/
def Accounted (finished : List ℤ) (r : ConsumeRequest) : Prop :=
  match r.stage with
  | .sendingBack i msgBackFailed =>
    ∀ msg ∈ r.msgs.take i, msg ∈ msgBackFailed ∨ msg.queueOffset ∈ finished
  | .removing => ∀ msg ∈ r.msgs, msg.queueOffset ∈ finished
  | _ => True

/-- Unfinished messages are in the queue, whose messages are before the offset of the next pull. -/
structure Inv (s : State) : Prop where
  kept : ∀ k, Unfinished s k → k ∈ s.processQueue.msgTreeMap
  counted : s.processQueue.msgCount = s.processQueue.msgTreeMap.size
  below : ∀ k ∈ s.processQueue.msgTreeMap, k < s.nextOffset
  largest : s.processQueue.msgTreeMap.size ≠ 0 → s.processQueue.queueOffsetMax < s.nextOffset
  reported : ∀ offset, Reported s offset →
    offset ≤ s.nextOffset ∧ ∀ k, Unfinished s k → offset ≤ k
  accounted : ∀ r ∈ s.requests, Accounted s.finished r

lemma inv_new (lastOffset : Option ℤ) (otherwise : ℤ) :
    Inv (computePullFromWhere lastOffset otherwise) where
  kept := fun k h => absurd h.1 List.not_mem_nil
  counted := rfl
  below := fun k h => absurd h (TreeMap.not_mem_empty k)
  largest := fun h => absurd rfl h
  reported := fun offset h => by
    refine ⟨?_, fun k hk => absurd hk.1 List.not_mem_nil⟩
    rcases h with hstored | ⟨r, hr, -⟩ | hpull
    · obtain rfl : lastOffset = some offset := hstored
      exact le_rfl
    · exact absurd hr List.not_mem_nil
    · cases hpull
  accounted := fun r hr => absurd hr List.not_mem_nil

lemma stage_of_mem_submit {n : ℕ} {msgs : List MessageExt} {r : ConsumeRequest}
    (h : r ∈ submitConsumeRequest n msgs) : r.stage = .submitted := by
  obtain ⟨_, -, rfl⟩ := List.mem_map.mp h
  rfl

lemma increaseOnly_cases {offsetOld : Option ℤ} {offset result : ℤ}
    (h : increaseOnly offsetOld offset = some result) :
    result = offset ∨ offsetOld = some result := by
  cases offsetOld with
  | none =>
    cases h
    exact .inl rfl
  | some old =>
    cases h
    rcases max_choice old offset with hmax | hmax
    · exact .inr (congrArg some hmax.symm)
    · exact .inl hmax

lemma Accounted.mono {finished finished' : List ℤ} {r : ConsumeRequest}
    (h : Accounted finished r) (hsub : finished ⊆ finished') : Accounted finished' r := by
  rw [Accounted] at h ⊢
  split at h
  · exact fun msg hmsg => (h msg hmsg).imp_right fun hin => hsub hin
  · exact fun msg hmsg => hsub (h msg hmsg)
  · trivial

section

variable {s s' : State}

/-- A step that leaves the queue and the pull offset alone, and reports nothing new. -/
lemma Inv.frame (h : Inv s) (hqueue : s'.processQueue = s.processQueue)
    (hnext : s'.nextOffset = s.nextOffset) (hpulled : s'.pulled = s.pulled)
    (hfinished : s.finished ⊆ s'.finished)
    (hreported : ∀ offset, Reported s' offset → Reported s offset)
    (haccounted : ∀ r ∈ s'.requests, Accounted s'.finished r) : Inv s' := by
  have hunfinished : ∀ k, Unfinished s' k → Unfinished s k := fun k hk =>
    ⟨hpulled ▸ hk.1, fun hin => hk.2 (hfinished hin)⟩
  refine ⟨fun k hk => ?_, ?_, ?_, ?_, fun offset ho => ?_, haccounted⟩
  · rw [hqueue]
    exact h.kept k (hunfinished k hk)
  · rw [hqueue]
    exact h.counted
  · rw [hqueue, hnext]
    exact h.below
  · rw [hqueue, hnext]
    exact h.largest
  · obtain ⟨hle, hall⟩ := h.reported offset (hreported offset ho)
    exact ⟨hle.trans_eq hnext.symm, fun k hk => hall k (hunfinished k hk)⟩

/-- A request goes on, without an offset. -/
lemma Inv.set (h : Inv s) {i : ℕ} {r : ConsumeRequest} {finished : List ℤ}
    {laters : List (List MessageExt)} (hfinished : s.finished ⊆ finished)
    (hstage : ∀ offset, r.stage ≠ .updating offset) (hr : Accounted finished r) :
    Inv { s with requests := s.requests.set i r, finished := finished, laters := laters } := by
  refine h.frame rfl rfl rfl hfinished (fun offset ho => ?_) fun r' hr' => ?_
  · rcases ho with hstored | ⟨r', hr', hoffset⟩ | hpull
    · exact .inl hstored
    · rcases List.mem_or_eq_of_mem_set hr' with hold | rfl
      · exact .inr (.inl ⟨r', hold, hoffset⟩)
      · exact absurd hoffset (hstage offset)
    · exact .inr (.inr hpull)
  · rcases List.mem_or_eq_of_mem_set hr' with hold | rfl
    · exact (h.accounted r' hold).mono hfinished
    · exact hr

/-- Requests are submitted. -/
lemma Inv.submit (h : Inv s) {n : ℕ} {msgs : List MessageExt} {pullStage : PullStage}
    {laters : List (List MessageExt)}
    (hpull : ∀ offset, pullStage = .updating offset → s.pullStage = .updating offset) :
    Inv { s with
      pullStage, laters, requests := s.requests ++ submitConsumeRequest n msgs } := by
  refine h.frame rfl rfl rfl (List.Subset.refl _) (fun offset ho => ?_) fun r hr => ?_
  · rcases ho with hstored | ⟨r, hr, hoffset⟩ | hupdating
    · exact .inl hstored
    · rcases List.mem_append.mp hr with hold | hnew
      · exact .inr (.inl ⟨r, hold, hoffset⟩)
      · rw [stage_of_mem_submit hnew] at hoffset
        cases hoffset
    · exact .inr (.inr (hpull offset hupdating))
  · rcases List.mem_append.mp hr with hold | hnew
    · exact h.accounted r hold
    · rw [Accounted, stage_of_mem_submit hnew]
      trivial

/-- The next pull is from further on. -/
lemma Inv.advance (h : Inv s) {nextBeginOffset : ℤ} {pullStage : PullStage}
    (hnext : s.nextOffset ≤ nextBeginOffset)
    (hpull : ∀ offset, pullStage ≠ .updating offset) :
    Inv { s with nextOffset := nextBeginOffset, pullStage } where
  kept := h.kept
  counted := h.counted
  below := fun k hk => (h.below k hk).trans_le hnext
  largest := fun hsize => (h.largest hsize).trans_le hnext
  reported := fun offset ho => by
    have hold : Reported s offset := by
      rcases ho with hstored | hrequest | hupdating
      · exact .inl hstored
      · exact .inr (.inl hrequest)
      · exact absurd hupdating (hpull offset)
    obtain ⟨hle, hall⟩ := h.reported offset hold
    exact ⟨hle.trans hnext, hall⟩
  accounted := h.accounted

/-- Nothing is unfinished when no message is counted. -/
lemma Inv.correct (h : Inv s) :
    Inv { s with
      pullStage := if s.processQueue.msgCount = 0 then .updating s.nextOffset else .pulling } where
  kept := h.kept
  counted := h.counted
  below := h.below
  largest := h.largest
  reported := fun offset ho => by
    rcases ho with hstored | hrequest | hupdating
    · exact h.reported offset (.inl hstored)
    · exact h.reported offset (.inr (.inl hrequest))
    · dsimp only at hupdating
      split_ifs at hupdating with hcount
      cases hupdating
      have hsize : s.processQueue.msgTreeMap.size = 0 := by
        have hcounted := h.counted
        omega
      exact ⟨le_rfl, fun k hk => absurd (h.kept k hk) (TreeMap.size_eq_zero.mp hsize k)⟩
  accounted := h.accounted

/-- Messages come behind all others. -/
lemma Inv.found (h : Inv s) {msgs : List MessageExt} {nextBeginOffset : ℤ}
    (hoffsets : ∀ k ∈ offsets msgs, s.nextOffset ≤ k ∧ k < nextBeginOffset)
    (hnext : s.nextOffset ≤ nextBeginOffset) (hne : msgs ≠ []) :
    Inv { s with
      processQueue := (s.processQueue.putMessage msgs).1
      nextOffset := nextBeginOffset
      pullStage := .submitting msgs
      pulled := s.pulled ++ offsets msgs } := by
  have hpulled : ∀ k, k ∈ s.pulled ++ offsets msgs → k ∉ s.finished →
      Unfinished s k ∨ k ∈ offsets msgs := fun k hk hnot =>
    (List.mem_append.mp hk).imp_left fun hold => ⟨hold, hnot⟩
  refine ⟨fun k hk => ?_, ?_, fun k hk => ?_, fun _ => ?_, fun offset ho => ?_, h.accounted⟩
  · rw [ProcessQueue.mem_putMessage]
    rcases hpulled k hk.1 hk.2 with hold | hnew
    · exact .inr (h.kept k hold)
    · exact .inl hnew
  · have hcounted := h.counted
    have hput := ProcessQueue.msgCount_putMessage (q := s.processQueue) msgs
    dsimp only
    omega
  · rcases ProcessQueue.mem_putMessage.mp hk with hnew | hold
    · exact (hoffsets k hnew).2
    · exact (h.below k hold).trans_le hnext
  · obtain ⟨msg, msgs, rfl⟩ := List.exists_cons_of_ne_nil hne
    have hnew : msg.queueOffset ∉ s.processQueue.msgTreeMap := fun hmem =>
      absurd (h.below _ hmem) (not_lt.mpr (hoffsets _ List.mem_cons_self).1)
    exact (hoffsets _ (ProcessQueue.queueOffsetMax_putMessage hnew)).2
  · have hold : Reported s offset := by
      rcases ho with hstored | hrequest | hupdating
      · exact .inl hstored
      · exact .inr (.inl hrequest)
      · cases hupdating
    obtain ⟨hle, hall⟩ := h.reported offset hold
    refine ⟨hle.trans hnext, fun k hk => ?_⟩
    rcases hpulled k hk.1 hk.2 with hunfinished | hnew
    · exact hall k hunfinished
    · exact hle.trans (hoffsets k hnew).1

/-- What is finished is removed, and the offset told is not behind what is left. -/
lemma Inv.removeMessage (h : Inv s) {i : ℕ} {msgs : List MessageExt}
    (hr : s.requests[i]? = some ⟨msgs, .removing⟩) :
    Inv { s with
      processQueue := (s.processQueue.removeMessage msgs).1
      requests := s.requests.set i ⟨msgs,
        if 0 ≤ (s.processQueue.removeMessage msgs).2
        then .updating (s.processQueue.removeMessage msgs).2 else .ended⟩ } := by
  have hfinished : ∀ msg ∈ msgs, msg.queueOffset ∈ s.finished :=
    h.accounted _ (List.mem_of_getElem? hr)
  have hkept : ∀ k, Unfinished s k → k ∈ (s.processQueue.removeMessage msgs).1.msgTreeMap := by
    intro k hk
    refine ProcessQueue.mem_removeMessage.mpr ⟨fun hin => hk.2 ?_, h.kept k hk⟩
    obtain ⟨msg, hmsg, rfl⟩ := List.mem_map.mp hin
    exact hfinished msg hmsg
  have hsub : ∀ k ∈ (s.processQueue.removeMessage msgs).1.msgTreeMap,
      k ∈ s.processQueue.msgTreeMap := fun k hk => (ProcessQueue.mem_removeMessage.mp hk).2
  refine ⟨hkept, ?_, fun k hk => h.below k (hsub k hk), fun hsize => ?_, fun offset ho => ?_,
    fun r hr' => ?_⟩
  · have hcounted := h.counted
    have hremoved := ProcessQueue.msgCount_removeMessage (q := s.processQueue) msgs
    dsimp only
    omega
  · dsimp only at hsize ⊢
    rw [ProcessQueue.queueOffsetMax_removeMessage]
    refine h.largest fun hempty => hsize (TreeMap.size_eq_zero.mpr fun k hk => ?_)
    exact TreeMap.size_eq_zero.mp hempty k (hsub k hk)
  · have hcases : Reported s offset ∨ 0 ≤ offset ∧
        (s.processQueue.removeMessage msgs).2 = offset := by
      rcases ho with hstored | ⟨r, hr', hoffset⟩ | hupdating
      · exact .inl (.inl hstored)
      · rcases List.mem_or_eq_of_mem_set hr' with hold | rfl
        · exact .inl (.inr (.inl ⟨r, hold, hoffset⟩))
        · dsimp only at hoffset
          split_ifs at hoffset with hle
          cases hoffset
          exact .inr ⟨hle, rfl⟩
      · exact .inl (.inr (.inr hupdating))
    rcases hcases with hold | ⟨hle, rfl⟩
    · exact h.reported offset hold
    · obtain ⟨hsize, hall, hfrom⟩ := ProcessQueue.removeMessage_offset hle
      refine ⟨?_, fun k hk => hall k (hkept k hk)⟩
      have hlargest := h.largest hsize
      dsimp only
      rcases hfrom with hmem | heq
      · exact (h.below _ hmem).le
      · omega
  · rcases List.mem_or_eq_of_mem_set hr' with hold | rfl
    · exact h.accounted r hold
    · dsimp only [Accounted]
      split_ifs <;> trivial

theorem inv_step {a : Action} (h : Inv s) (hs : step s a = some s') : Inv s' := by
  cases a with
  | found msgs nextBeginOffset =>
    dsimp only [step] at hs
    split at hs
    · rename_i hpull
      split_ifs at hs with hanswer hempty
      · cases hs
        exact h.advance hanswer.2.2 fun _ hupdating => nomatch hpull.symm.trans hupdating
      · cases hs
        rw [List.isEmpty_iff] at hempty
        exact h.found hanswer.2.1 hanswer.2.2 hempty
    · cases hs
  | submitConsumeRequest consumeBatchSize =>
    dsimp only [step] at hs
    split at hs
    · split_ifs at hs
      cases hs
      exact h.submit fun _ hupdating => nomatch hupdating
    · cases hs
  | noNewMsg nextBeginOffset =>
    dsimp only [step] at hs
    split at hs
    · split_ifs at hs with hnext
      cases hs
      exact h.advance hnext fun _ hupdating => nomatch hupdating
    · cases hs
  | correctTagsOffset =>
    dsimp only [step] at hs
    split at hs
    · cases hs
      exact h.correct
    · cases hs
  | updateTagsOffset =>
    dsimp only [step] at hs
    split at hs
    · rename_i offset hpull
      cases hs
      refine h.frame rfl rfl rfl (List.Subset.refl _) (fun offset' ho => ?_) h.accounted
      rcases ho with hstored | hrequest | hupdating
      · rcases increaseOnly_cases hstored with rfl | hold
        · exact .inr (.inr hpull)
        · exact .inl hold
      · exact .inr (.inl hrequest)
      · cases hupdating
    · cases hs
  | consumeMessage i status ackIndex =>
    dsimp only [step] at hs
    split at hs
    · rename_i msgs hr
      have hended : Inv { s with requests := s.requests.set i ⟨msgs, .ended⟩ } :=
        h.set (List.Subset.refl _) (fun _ hstage => nomatch hstage) trivial
      split_ifs at hs
      · cases hs
        exact hended
      · split at hs
        · rename_i ok _
          cases hs
          refine h.set (List.subset_append_left _ _) (fun _ hstage => nomatch hstage) ?_
          exact fun msg hmsg => .inr (List.mem_append_right _ (List.mem_map_of_mem hmsg))
        · cases hs
          exact hended
    · cases hs
  | sendMessageBack i result =>
    dsimp only [step] at hs
    split at hs
    · rename_i msgs j msgBackFailed hr
      have hbefore := h.accounted _ (List.mem_of_getElem? hr)
      split at hs
      · rename_i msg hmsg
        have htake : msgs.take (j + 1) = msgs.take j ++ [msg] := by
          rw [List.take_add_one, hmsg]
          rfl
        split_ifs at hs
        · cases hs
          refine h.set (List.subset_append_left _ _) (fun _ hstage => nomatch hstage) ?_
          intro msg' hmem
          rw [htake] at hmem
          rcases List.mem_append.mp hmem with hold | hnew
          · exact (hbefore msg' hold).imp_right fun hin => List.mem_append_left _ hin
          · cases List.mem_singleton.mp hnew
            exact .inr (List.mem_append_right _ (List.mem_singleton.mpr rfl))
        · cases hs
          refine h.set (List.Subset.refl _) (fun _ hstage => nomatch hstage) ?_
          intro msg' hmem
          rw [htake] at hmem
          rcases List.mem_append.mp hmem with hold | hnew
          · exact (hbefore msg' hold).imp_left fun hin => List.mem_append_left _ hin
          · exact .inl (List.mem_append_right _ hnew)
      · cases hs
    · cases hs
  | submitConsumeRequestLater i =>
    dsimp only [step] at hs
    split at hs
    · rename_i msgs j msgBackFailed hr
      have hbefore := h.accounted _ (List.mem_of_getElem? hr)
      split_ifs at hs with hmore hnone
      all_goals
        cases hs
        refine h.set (List.Subset.refl _) (fun _ hstage => nomatch hstage) fun msg hmsg => ?_
      · have hnot : msg ∉ msgBackFailed := by
          rw [List.isEmpty_iff.mp hnone]
          exact List.not_mem_nil
        refine (hbefore msg ?_).resolve_left hnot
        rwa [List.take_of_length_le (not_lt.mp hmore)]
      · obtain ⟨hmem, hkept⟩ := List.mem_filter.mp hmsg
        refine (hbefore msg ?_).resolve_left (of_decide_eq_true hkept)
        rwa [List.take_of_length_le (not_lt.mp hmore)]
    · cases hs
  | removeMessage i =>
    dsimp only [step] at hs
    split at hs
    · rename_i msgs hr
      cases hs
      exact h.removeMessage hr
    · cases hs
  | updateOffset i =>
    dsimp only [step] at hs
    split at hs
    · rename_i msgs offset hr
      cases hs
      refine h.frame rfl rfl rfl (List.Subset.refl _) (fun offset' ho => ?_) fun r hr' => ?_
      · rcases ho with hstored | ⟨r, hr', hoffset⟩ | hupdating
        · rcases increaseOnly_cases hstored with rfl | hold
          · exact .inr (.inl ⟨_, List.mem_of_getElem? hr, rfl⟩)
          · exact .inl hold
        · rcases List.mem_or_eq_of_mem_set hr' with hold | rfl
          · exact .inr (.inl ⟨r, hold, hoffset⟩)
          · cases hoffset
        · exact .inr (.inr hupdating)
      · rcases List.mem_or_eq_of_mem_set hr' with hold | rfl
        · exact h.accounted r hold
        · trivial
    · cases hs
  | resubmit i consumeBatchSize =>
    dsimp only [step] at hs
    split at hs
    · split_ifs at hs
      cases hs
      exact h.submit fun _ hupdating => hupdating
    · cases hs

end

/-- **Concurrent consumption.** In every run the offset in the store is not behind any message that
was pulled and neither acknowledged nor sent back, and the count of messages is right. -/
theorem at_least_once (lastOffset : Option ℤ) (otherwise : ℤ) (as : List Action) (s : State)
    (hr : run step (computePullFromWhere lastOffset otherwise) as = some s) : AtLeastOnce s := by
  have hinv : Inv s := run_inductive (fun _ _ _ => inv_step) (inv_new lastOffset otherwise) hr
  exact ⟨fun offset ho k hk => (hinv.reported offset (.inl ho)).2 k hk, hinv.counted⟩

/-- Two messages in two requests; the second one is finished first. -/
def outOfOrder : List Action :=
  [.found [⟨5, none⟩, ⟨6, none⟩] 7, .submitConsumeRequest 1, .consumeMessage 1 .CONSUME_SUCCESS 0,
    .consumeMessage 0 .RECONSUME_LATER 0, .submitConsumeRequestLater 1, .removeMessage 1,
    .sendMessageBack 0 false, .submitConsumeRequestLater 0, .updateOffset 1]

def after (as : List Action) : State :=
  (run step (computePullFromWhere (some 5) 0) as).getD (computePullFromWhere (some 5) 0)

theorem at_least_once_outOfOrder : AtLeastOnce (after outOfOrder) :=
  at_least_once (some 5) 0 outOfOrder _ rfl

end CloudMQ.ConcurrentConsume
