import CloudMQ.ConcurrentConsume

/-!
A reset of the offset of a queue, and what is left of the queue that was pulled before.

The reset drops the queue, sets and persists the offset twice, and takes the queue out of the table,
so that a rebalance puts a new one in. Threads of the old queue go on. They write to the same entry
of the offset store as those of the new queue, and no write but that of a reset or of a rebalance
lowers the entry.
-/

namespace CloudMQ.DroppedQueue

open CloudMQ.PulledMessages CloudMQ.Runs
open CloudMQ.ConcurrentConsume (increaseOnly)

/-- The pull request of a queue waits for its turn, had it while the queue was not dropped, or was
sent to the broker. -/
inductive PullCall
  | waiting
  | checked
  | sent
deriving DecidableEq

structure Queue where
  pull : PullCall
  consume : ConcurrentConsume.State

def newQueue (lastOffset : Option ℤ) (first : ℤ) : Queue :=
  ⟨.waiting, ConcurrentConsume.computePullFromWhere lastOffset first⟩

/-- The thread that pulls looks whether the queue is dropped, and then sends the request, which may
end in an exception. All else is a step of the callback or of a consume thread. -/
inductive QueueAction
  | pullMessage
  | pullKernelImpl
  | onException
  | thread (a : ConcurrentConsume.Action)

/-- A request that finds its queue dropped is over, also behind the listener. -/
def discard (s : ConcurrentConsume.State) (i : ℕ) : Option ConcurrentConsume.State :=
  match s.requests[i]? with
  | some ⟨msgs, .submitted⟩ => some { s with requests := s.requests.set i ⟨msgs, .ended⟩ }
  | _ => none

def work (s : ConcurrentConsume.State) : ConcurrentConsume.Action → Option ConcurrentConsume.State
  | .consumeMessage i status ackIndex =>
    if s.processQueue.dropped then discard s i
    else ConcurrentConsume.step s (.consumeMessage i status ackIndex)
  | a => ConcurrentConsume.step s a

/-- The messages and the offset behind them that the broker answers a pull with; no new message and
no matched message are treated alike. -/
def answer : ConcurrentConsume.Action → Option (List MessageExt × ℤ)
  | .found msgs nextBeginOffset => some (msgs, nextBeginOffset)
  | .noNewMsg nextBeginOffset => some ([], nextBeginOffset)
  | _ => none

/-- An answer has all messages from the offset asked for up to the one that it ends with. -/
def Complete (messages : List ℤ) (nextOffset : ℤ) (p : List MessageExt × ℤ) : Prop :=
  ∀ k ∈ messages, nextOffset ≤ k → k < p.2 → k ∈ offsets p.1

instance (messages : List ℤ) (nextOffset : ℤ) (p : List MessageExt × ℤ) :
    Decidable (Complete messages nextOffset p) :=
  inferInstanceAs (Decidable (∀ k ∈ messages, nextOffset ≤ k → k < p.2 → k ∈ offsets p.1))

/-- A step of a thread, which finds the entry in the offset store. -/
def Queue.thread (messages : List ℤ) (q : Queue) (offsetStore : Option ℤ)
    (a : ConcurrentConsume.Action) : Option Queue :=
  match answer a with
  | some p =>
    if q.pull = .sent ∧ Complete messages q.consume.nextOffset p then
      (work { q.consume with offsetStore } a).map fun consume => ⟨.waiting, consume⟩
    else none
  | none => (work { q.consume with offsetStore } a).map fun consume => ⟨q.pull, consume⟩

/-- The offset to reset to, the offsets of all messages of the queue, the offset that the broker has
for the group at first, and where a queue without one is pulled from. -/
structure Setting where
  offset : ℕ
  messages : List ℤ
  lastOffset : Option ℕ
  first : ℕ

/-- How far `resetOffset` is; `persisting` and `fetched` have the offset that was read. -/
inductive Stage
  | running
  | dropped
  | cleared
  | updated
  | persisting (offset : Option ℤ)
  | waiting
  | updatedAgain
  | persistingAgain (offset : Option ℤ)
  | persistedAgain
  | removed
  | fetched (lastOffset : Option ℤ)
  | ended (fresh : Queue)

/-- Whether the table has a queue. -/
def Stage.pulled : Stage → Bool
  | .removed | .fetched _ => false
  | _ => true

def Stage.isEnded : Stage → Bool
  | .ended _ => true
  | _ => false

/-- `persistConsumerOffset` is over, has looked at the table, or will remove an unused entry. -/
inductive PersistStage
  | idle
  | persisting (contains : Bool)
  | removing

/-- An offset on its way to the broker; `early` is one that was read from the store before the new
queue was put in. -/
structure Commit where
  offset : ℤ
  early : Bool

structure State where
  old : Queue
  stage : Stage
  offsetStore : Option ℤ
  broker : Option ℤ
  commits : List Commit
  persist : PersistStage

def Setting.stored (w : Setting) : Option ℤ := w.lastOffset.map Int.ofNat

def newState (w : Setting) : State where
  old := newQueue w.stored w.first
  stage := .running
  offsetStore := w.stored
  broker := w.stored
  commits := []
  persist := .idle

/-- `commitOffset` is the broker that gets an offset, from `persistAll` or along with a pull. -/
inductive Action
  | old (a : QueueAction)
  | fresh (a : QueueAction)
  | resetOffset
  | persistConsumerOffset
  | persistAll
  | commitOffset (i : ℕ)

def send (s : State) (offset : ℤ) : State :=
  { s with commits := s.commits ++ [⟨offset, !s.stage.isEnded⟩] }

/-- A pull takes the entry of the store along, if it is positive. -/
def commitOffsetValue (s : State) : State :=
  match s.offsetStore with
  | some offset => if 0 < offset then send s offset else s
  | none => s

def onQueue (w : Setting) (s : State) (q : Queue) : QueueAction → Option (Queue × State)
  | .pullMessage =>
    match q.pull, q.consume.pullStage with
    | .waiting, .pulling =>
      if q.consume.processQueue.dropped then none else some (⟨.checked, q.consume⟩, s)
    | _, _ => none
  | .pullKernelImpl =>
    match q.pull with
    | .checked => some (⟨.sent, q.consume⟩, commitOffsetValue s)
    | _ => none
  | .onException =>
    match q.pull with
    | .sent => some (⟨.waiting, q.consume⟩, s)
    | _ => none
  | .thread a =>
    (q.thread w.messages s.offsetStore a).map fun q' =>
      (q', { s with offsetStore := q'.consume.offsetStore })

def Queue.setProcessQueue (q : Queue) (processQueue : ProcessQueue) : Queue :=
  { q with consume := { q.consume with processQueue } }

/-- The next step of `resetOffset`, and of the rebalance at its end. What it persists reaches the
broker before it goes on. -/
def resetOffset (w : Setting) (s : State) : Option State :=
  match s.stage with
  | .running => some { s with
      stage := .dropped
      old := s.old.setProcessQueue (s.old.consume.processQueue.setDropped true) }
  | .dropped => some { s with
      stage := .cleared
      old := s.old.setProcessQueue s.old.consume.processQueue.clear }
  | .cleared => some { s with stage := .updated, offsetStore := some w.offset }
  | .updated => some { s with stage := .persisting s.offsetStore }
  | .persisting offset => some { s with stage := .waiting, broker := offset <|> s.broker }
  | .waiting => some { s with stage := .updatedAgain, offsetStore := some w.offset }
  | .updatedAgain => some { s with stage := .persistingAgain s.offsetStore }
  | .persistingAgain offset => some { s with
      stage := .persistedAgain
      broker := offset <|> s.broker }
  | .persistedAgain => some { s with stage := .removed }
  | .removed => some { s with stage := .fetched s.broker }
  | .fetched lastOffset => some { s with
      stage := .ended (newQueue lastOffset w.first)
      offsetStore := lastOffset <|> s.offsetStore }
  | .ended _ => none

def step (w : Setting) (s : State) : Action → Option State
  | .old a => (onQueue w s s.old a).map fun p => { p.2 with old := p.1 }
  | .fresh a =>
    match s.stage with
    | .ended fresh => (onQueue w s fresh a).map fun p => { p.2 with stage := .ended p.1 }
    | _ => none
  | .resetOffset => resetOffset w s
  | .persistConsumerOffset =>
    match s.persist with
    | .idle => some { s with persist := .persisting s.stage.pulled }
    | _ => none
  | .persistAll =>
    match s.persist, s.offsetStore with
    | .persisting true, some offset => some { send s offset with persist := .idle }
    | .persisting false, some _ => some { s with persist := .removing }
    | .persisting _, none => some { s with persist := .idle }
    | .removing, _ => some { s with offsetStore := none, persist := .idle }
    | .idle, _ => none
  | .commitOffset i =>
    match s.commits[i]? with
    | some c => some { s with broker := some c.offset, commits := s.commits.eraseIdx i }
    | none => none

/-! ### The promise -/

/-- An offset that is not behind any unfinished message from the reset on. -/
def Behind (w : Setting) (finished : List ℤ) (offset : ℤ) : Prop :=
  ∀ k ∈ w.messages, w.offset ≤ k → k ∉ finished → offset ≤ k

/-- Once the new queue is there, neither the offset store nor the broker has a greater offset. -/
def NotOvertaken (w : Setting) (s : State) : Prop :=
  ∀ fresh, s.stage = .ended fresh →
    (∀ offset ∈ s.offsetStore, Behind w fresh.consume.finished offset) ∧
    ∀ offset ∈ s.broker, Behind w fresh.consume.finished offset

/-- The offset that a step writes to the store. -/
def written (s : ConcurrentConsume.State) : ConcurrentConsume.Action → Option ℤ
  | .updateTagsOffset =>
    match s.pullStage with
    | .updating offset => some offset
    | _ => none
  | .updateOffset i =>
    match s.requests[i]? with
    | some ⟨_, .updating offset⟩ => some offset
    | _ => none
  | _ => none

/-- The second update is done and not yet persisted, or the new queue is there. -/
def Stage.exposed : Stage → Bool
  | .updatedAgain | .ended _ => true
  | _ => false

/-- The offset was persisted for the second time. -/
def Stage.persisted : Stage → Bool
  | .persistedAgain | .removed | .fetched _ | .ended _ => true
  | _ => false

/-- Neither behind the offset that is recorded nor behind that of the reset. -/
def Harmless (w : Setting) (recorded : Option ℤ) (offset : ℤ) : Prop :=
  offset ≤ w.offset ∨ ∃ o ∈ recorded, offset ≤ o

/-- No late write of the old queue comes between the second update of the store and its persist, or
after the rebalance, with a greater offset; and no greater offset that was read before reaches the
broker after the second persist. -/
def Timely (w : Setting) (s : State) : Action → Prop
  | .old (.thread a) => s.stage.exposed → ∀ offset ∈ written s.old.consume a,
      Harmless w s.offsetStore offset
  | .commitOffset i => s.stage.persisted → ∀ c ∈ s.commits[i]?, c.early →
      Harmless w s.broker c.offset
  | _ => True

/-! ### A step of a queue -/

/-- The entry of the store behind a step. -/
def entry (s : ConcurrentConsume.State) (a : ConcurrentConsume.Action) (offsetStore : Option ℤ) :
    Option ℤ :=
  (written s a).elim offsetStore (increaseOnly offsetStore)

/-- A step does not depend on the entry of the store. -/
lemma step_withStore (s : ConcurrentConsume.State) (a : ConcurrentConsume.Action)
    (offsetStore : Option ℤ) :
    ConcurrentConsume.step { s with offsetStore } a = (ConcurrentConsume.step s a).map fun s' =>
      { s' with offsetStore := entry s a offsetStore } := by
  cases a <;> dsimp only [ConcurrentConsume.step, entry, written]
  case found msgs nextBeginOffset =>
    split
    · split_ifs <;> rfl
    · rfl
  case submitConsumeRequest n =>
    split
    · split_ifs <;> rfl
    · rfl
  case noNewMsg =>
    split
    · split_ifs <;> rfl
    · rfl
  case correctTagsOffset => split <;> rfl
  case updateTagsOffset => cases s.pullStage <;> rfl
  case consumeMessage i status ackIndex =>
    split
    · split_ifs
      · rfl
      · split <;> rfl
    · rfl
  case sendMessageBack i result =>
    split
    · split
      · split_ifs <;> rfl
      · rfl
    · rfl
  case submitConsumeRequestLater i =>
    split
    · split_ifs <;> rfl
    · rfl
  case removeMessage i => split <;> rfl
  case updateOffset i =>
    generalize s.requests[i]? = request
    rcases request with _ | ⟨msgs, stage⟩
    · rfl
    · cases stage <;> rfl
  case resubmit i n =>
    split
    · split_ifs <;> rfl
    · rfl

structure Stepped (s : ConcurrentConsume.State) (a : ConcurrentConsume.Action)
    (s' : ConcurrentConsume.State) : Prop where
  finished : s.finished ⊆ s'.finished
  pulled : s'.pulled = s.pulled ++ offsets (((answer a).map Prod.fst).getD [])
  next : s'.nextOffset = ((answer a).map Prod.snd).getD s.nextOffset

lemma stepped {s s' : ConcurrentConsume.State} {a : ConcurrentConsume.Action}
    (h : ConcurrentConsume.step s a = some s') : Stepped s a s' := by
  have hquiet : s.pulled = s.pulled ++ offsets [] := (List.append_nil _).symm
  cases a <;> dsimp only [ConcurrentConsume.step] at h
  case found msgs nextBeginOffset =>
    split at h
    · split_ifs at h with hanswer hempty
      · cases h
        obtain rfl := List.isEmpty_iff.mp hempty
        exact ⟨List.Subset.refl _, hquiet, rfl⟩
      · cases h
        exact ⟨List.Subset.refl _, rfl, rfl⟩
    · cases h
  case consumeMessage i status ackIndex =>
    split at h
    · split_ifs at h
      · cases h
        exact ⟨List.Subset.refl _, hquiet, rfl⟩
      · split at h
        · cases h
          exact ⟨List.subset_append_left _ _, hquiet, rfl⟩
        · cases h
          exact ⟨List.Subset.refl _, hquiet, rfl⟩
    · cases h
  case sendMessageBack i result =>
    split at h
    · split at h
      · split_ifs at h
        · cases h
          exact ⟨List.subset_append_left _ _, hquiet, rfl⟩
        · cases h
          exact ⟨List.Subset.refl _, hquiet, rfl⟩
      · cases h
    · cases h
  case submitConsumeRequestLater i =>
    split at h
    · split_ifs at h
      all_goals
        cases h
        exact ⟨List.Subset.refl _, hquiet, rfl⟩
    · cases h
  case submitConsumeRequest | noNewMsg | resubmit =>
    split at h
    · split_ifs at h
      cases h
      exact ⟨List.Subset.refl _, hquiet, rfl⟩
    · cases h
  case correctTagsOffset | updateTagsOffset | removeMessage | updateOffset =>
    split at h
    · cases h
      exact ⟨List.Subset.refl _, hquiet, rfl⟩
    · cases h

lemma inv_forget {s : ConcurrentConsume.State} (h : ConcurrentConsume.Inv s) :
    ConcurrentConsume.Inv { s with offsetStore := none } :=
  h.frame rfl rfl rfl (List.Subset.refl _)
    (fun _ ho => .inr (ho.resolve_left fun hstored => nomatch hstored)) h.accounted

/-- What a thread does to its queue when it finds an entry in the store. -/
structure Worked (s : ConcurrentConsume.State) (offsetStore : Option ℤ)
    (a : ConcurrentConsume.Action) (s' : ConcurrentConsume.State) : Prop where
  stored : s'.offsetStore = entry s a offsetStore
  step : Stepped s a s'
  inv : ConcurrentConsume.Inv { s with offsetStore := none } →
    ConcurrentConsume.Inv { s' with offsetStore := none }

section

variable {s s' : ConcurrentConsume.State} {offsetStore : Option ℤ} {a : ConcurrentConsume.Action}

lemma worked_of_step (h : ConcurrentConsume.step { s with offsetStore } a = some s') :
    Worked s offsetStore a s' := by
  obtain ⟨hfinished, hpulled, hnext⟩ := stepped h
  rw [step_withStore] at h
  obtain ⟨t, ht, rfl⟩ := Option.map_eq_some_iff.mp h
  refine ⟨rfl, ⟨hfinished, hpulled, hnext⟩, fun hinv => ?_⟩
  have halone := step_withStore s a none
  rw [ht, Option.map_some] at halone
  have hforget := inv_forget (ConcurrentConsume.inv_step hinv halone)
  exact hforget

lemma worked_of_discard {i : ℕ} {status : ConcurrentConsume.ConsumeConcurrentlyStatus}
    {ackIndex : ℤ} (h : discard { s with offsetStore } i = some s') :
    Worked s offsetStore (.consumeMessage i status ackIndex) s' := by
  rw [discard] at h
  split at h
  · cases h
    refine ⟨rfl, ⟨List.Subset.refl _, (List.append_nil _).symm, rfl⟩, fun hinv => ?_⟩
    exact hinv.set (List.Subset.refl _) (fun _ hstage => nomatch hstage) trivial
  · cases h

lemma worked (h : work { s with offsetStore } a = some s') : Worked s offsetStore a s' := by
  cases a
  case consumeMessage i status ackIndex =>
    dsimp only [work] at h
    split_ifs at h
    · exact worked_of_discard h
    · exact worked_of_step h
  all_goals exact worked_of_step h

end

lemma thread_spec {messages : List ℤ} {q q' : Queue} {offsetStore : Option ℤ}
    {a : ConcurrentConsume.Action} (h : q.thread messages offsetStore a = some q') :
    (∀ p ∈ answer a, Complete messages q.consume.nextOffset p) ∧
      Worked q.consume offsetStore a q'.consume := by
  rw [Queue.thread] at h
  split at h
  · rename_i p hanswer
    split_ifs at h with hsent
    obtain ⟨consume, hwork, rfl⟩ := Option.map_eq_some_iff.mp h
    refine ⟨fun p' hp' => ?_, worked hwork⟩
    obtain rfl := Option.some.inj (hanswer.symm.trans hp')
    exact hsent.2
  · rename_i hanswer
    obtain ⟨consume, hwork, rfl⟩ := Option.map_eq_some_iff.mp h
    exact ⟨fun p' hp' => absurd (hanswer.symm.trans hp') (nofun), worked hwork⟩

/-- The thread that pulls leaves the messages alone; the others write to the store. -/
lemma onQueue_cases {w : Setting} {s s' : State} {q q' : Queue} {a : QueueAction}
    (h : onQueue w s q a = some (q', s')) :
    (q'.consume = q.consume ∧ (s' = s ∨ ∃ offset ∈ s.offsetStore, s' = send s offset)) ∨
      ∃ t, a = .thread t ∧ q.thread w.messages s.offsetStore t = some q' ∧
        s' = { s with offsetStore := q'.consume.offsetStore } := by
  cases a with
  | pullMessage =>
    dsimp only [onQueue] at h
    split at h
    · split_ifs at h
      cases h
      exact .inl ⟨rfl, .inl rfl⟩
    · cases h
  | pullKernelImpl =>
    dsimp only [onQueue] at h
    split at h
    · cases h
      refine .inl ⟨rfl, ?_⟩
      rw [commitOffsetValue]
      split
      · rename_i offset hstored
        split_ifs
        · exact .inr ⟨offset, hstored, rfl⟩
        · exact .inl rfl
      · exact .inl rfl
    · cases h
  | onException =>
    dsimp only [onQueue] at h
    split at h
    · cases h
      exact .inl ⟨rfl, .inl rfl⟩
    · cases h
  | thread t =>
    obtain ⟨q'', hthread, heq⟩ := Option.map_eq_some_iff.mp h
    cases heq
    exact .inr ⟨t, rfl, hthread, rfl⟩

/-! ### The invariant -/

/-- The new queue is pulled from the offset of the reset or before it, without gaps. -/
structure Follows (w : Setting) (q : Queue) : Prop where
  inv : ConcurrentConsume.Inv { q.consume with offsetStore := none }
  complete : ∀ k ∈ w.messages, w.offset ≤ k → k < q.consume.nextOffset → k ∈ q.consume.pulled

section

variable {w : Setting}

lemma Behind.mono {finished finished' : List ℤ} {offset : ℤ} (h : Behind w finished offset)
    (hsub : finished ⊆ finished') : Behind w finished' offset :=
  fun k hk hle hnot => h k hk hle fun hin => hnot (hsub hin)

lemma behind_of_le {finished : List ℤ} {offset : ℤ} (h : offset ≤ w.offset) :
    Behind w finished offset := fun _ _ hle _ => h.trans hle

lemma Harmless.behind {finished : List ℤ} {recorded : Option ℤ} {offset : ℤ}
    (h : Harmless w recorded offset) (hrecorded : ∀ o ∈ recorded, Behind w finished o) :
    Behind w finished offset := by
  rcases h with hle | ⟨o, ho, hle⟩
  · exact behind_of_le hle
  · exact fun k hk hfrom hnot => hle.trans (hrecorded o ho k hk hfrom hnot)

lemma behind_increaseOnly {finished : List ℤ} {offsetStore : Option ℤ} {offset : ℤ}
    (hstored : ∀ o ∈ offsetStore, Behind w finished o) (h : Behind w finished offset) :
    ∀ o ∈ increaseOnly offsetStore offset, Behind w finished o := by
  intro o ho
  rcases ConcurrentConsume.increaseOnly_cases ho with rfl | hold
  · exact h
  · exact hstored o hold

lemma reported_of_written {s : ConcurrentConsume.State} {a : ConcurrentConsume.Action}
    {offset : ℤ} (h : written s a = some offset) :
    ConcurrentConsume.Reported { s with offsetStore := none } offset := by
  cases a with
  | updateTagsOffset =>
    dsimp only [written] at h
    split at h
    · rename_i hpull
      cases h
      exact .inr (.inr hpull)
    · cases h
  | updateOffset i =>
    dsimp only [written] at h
    split at h
    · rename_i hr
      cases h
      exact .inr (.inl ⟨_, List.mem_of_getElem? hr, rfl⟩)
    · cases h
  | _ => cases h

namespace Follows

variable {q q' : Queue}

/-- What the new queue reports is right. -/
lemma behind (h : Follows w q) {a : ConcurrentConsume.Action} {offset : ℤ}
    (hwritten : written q.consume a = some offset) : Behind w q.consume.finished offset := by
  intro k hk hfrom hnot
  obtain ⟨hle, hall⟩ := h.inv.reported offset (reported_of_written hwritten)
  rcases lt_or_ge k q.consume.nextOffset with hbefore | hbehind
  · exact hall k ⟨h.complete k hk hfrom hbefore, hnot⟩
  · exact hle.trans hbehind

lemma thread (h : Follows w q) {offsetStore : Option ℤ} {a : ConcurrentConsume.Action}
    (hthread : q.thread w.messages offsetStore a = some q') : Follows w q' := by
  obtain ⟨hcomplete, hw⟩ := thread_spec hthread
  refine ⟨hw.inv h.inv, fun k hk hfrom hbefore => ?_⟩
  rw [hw.step.pulled]
  rw [hw.step.next] at hbefore
  cases hanswer : answer a with
  | none =>
    rw [hanswer] at hbefore
    exact List.mem_append_left _ (h.complete k hk hfrom hbefore)
  | some p =>
    rw [hanswer] at hbefore
    rcases lt_or_ge k q.consume.nextOffset with hold | hnew
    · exact List.mem_append_left _ (h.complete k hk hfrom hold)
    · exact List.mem_append_right _ (hcomplete p hanswer k hk hnew hbefore)

end Follows

/-- Where the offset is that the second update wrote, on its way to the broker and back. -/
def Stage.holders (offsetStore broker : Option ℤ) : Stage → List (Option ℤ)
  | .updatedAgain => [offsetStore]
  | .persistingAgain offset => [offset]
  | .persistedAgain | .removed => [broker]
  | .fetched lastOffset => [lastOffset, broker]
  | _ => []

/-- There is an offset, and it is not greater than that of the reset. -/
def Held (w : Setting) (recorded : Option ℤ) : Prop := ∃ o ∈ recorded, o ≤ (w.offset : ℤ)

/-- Up to the rebalance. -/
structure Before (w : Setting) (s : State) : Prop where
  early : ∀ c ∈ s.commits, c.early = true
  contains : s.stage.pulled → s.persist = .idle ∨ s.persist = .persisting true
  held : ∀ recorded ∈ s.stage.holders s.offsetStore s.broker, Held w recorded

/-- From the rebalance on: the new queue, and the offsets that are recorded or on their way. -/
structure After (w : Setting) (s : State) (fresh : Queue) : Prop where
  follows : Follows w fresh
  stored : ∀ o ∈ s.offsetStore, Behind w fresh.consume.finished o
  broker : ∀ o ∈ s.broker, Behind w fresh.consume.finished o
  commits : ∀ c ∈ s.commits, c.early = false → Behind w fresh.consume.finished c.offset

structure Inv (w : Setting) (s : State) : Prop where
  before : s.stage.isEnded = false → Before w s
  after : ∀ fresh, s.stage = .ended fresh → After w s fresh

lemma inv_of_before {s : State} (hended : s.stage.isEnded = false) (h : Before w s) : Inv w s where
  before := fun _ => h
  after := fun fresh hfresh => by
    rw [hfresh] at hended
    cases hended

lemma inv_new : Inv w (newState w) :=
  inv_of_before rfl
    { early := fun _ hc => absurd hc List.not_mem_nil
      contains := fun _ => .inl rfl
      held := fun _ hrecorded => absurd hrecorded List.not_mem_nil }

lemma Inv.notOvertaken {s : State} (h : Inv w s) : NotOvertaken w s := fun fresh hfresh =>
  ⟨(h.after fresh hfresh).stored, (h.after fresh hfresh).broker⟩

section

variable {s : State}

/-- The old queue has no part in it. -/
lemma Inv.withOld (h : Inv w s) (old : Queue) : Inv w { s with old } where
  before := fun hended =>
    have hb := h.before hended
    ⟨hb.early, hb.contains, hb.held⟩
  after := fun fresh hfresh =>
    have ha := h.after fresh hfresh
    ⟨ha.follows, ha.stored, ha.broker, ha.commits⟩

lemma Inv.send (h : Inv w s) {offset : ℤ} (hoffset : offset ∈ s.offsetStore) :
    Inv w (send s offset) where
  before := fun hended => by
    have hb := h.before hended
    refine ⟨fun c hc => ?_, hb.contains, hb.held⟩
    rcases List.mem_append.mp hc with hold | hnew
    · exact hb.early c hold
    · obtain rfl := List.mem_singleton.mp hnew
      change (!s.stage.isEnded) = true
      rw [show s.stage.isEnded = false from hended]
      rfl
  after := fun fresh hfresh => by
    have ha := h.after fresh hfresh
    refine ⟨ha.follows, ha.stored, ha.broker, fun c hc hlate => ?_⟩
    rcases List.mem_append.mp hc with hold | hnew
    · exact ha.commits c hold hlate
    · obtain rfl := List.mem_singleton.mp hnew
      exact ha.stored offset hoffset

lemma Inv.withPersist (h : Inv w s) {persist : PersistStage}
    (hcontains : s.stage.isEnded = false → s.stage.pulled →
      persist = .idle ∨ persist = .persisting true) :
    Inv w { s with persist } where
  before := fun hended =>
    have hb := h.before hended
    ⟨hb.early, hcontains hended, hb.held⟩
  after := fun fresh hfresh =>
    have ha := h.after fresh hfresh
    ⟨ha.follows, ha.stored, ha.broker, ha.commits⟩

/-- The entry of the store is not looked at, up to the rebalance, unless it was just updated. -/
lemma Inv.withStore (h : Inv w s) {offsetStore : Option ℤ}
    (hupdated : s.stage = .updatedAgain → Held w offsetStore)
    (hstored : ∀ fresh, s.stage = .ended fresh →
      ∀ o ∈ offsetStore, Behind w fresh.consume.finished o) :
    Inv w { s with offsetStore } where
  before := fun hended => by
    have hb := h.before hended
    refine ⟨hb.early, hb.contains, fun recorded hrecorded => ?_⟩
    have hheld := hb.held recorded
    cases hstage : s.stage <;> rw [hstage] at hheld hrecorded
    case updatedAgain =>
      obtain rfl := List.mem_singleton.mp hrecorded
      exact hupdated hstage
    all_goals exact hheld hrecorded
  after := fun fresh hfresh =>
    have ha := h.after fresh hfresh
    ⟨ha.follows, hstored fresh hfresh, ha.broker, ha.commits⟩

/-- A late step of the old queue. -/
lemma Inv.old (h : Inv w s) {a : ConcurrentConsume.Action} {q' : Queue}
    (hok : Timely w s (.old (.thread a)))
    (hthread : s.old.thread w.messages s.offsetStore a = some q') :
    Inv w { s with offsetStore := q'.consume.offsetStore } := by
  rw [(thread_spec hthread).2.stored, entry]
  cases hwritten : written s.old.consume a with
  | none => exact h
  | some offset =>
    have hharmless : s.stage.exposed → Harmless w s.offsetStore offset := fun hexposed =>
      hok hexposed offset hwritten
    refine h.withStore (fun hstage => ?_) fun fresh hfresh => ?_
    · obtain ⟨o, ho, hle⟩ := (h.before (by rw [hstage]; rfl)).held s.offsetStore (by
        rw [hstage]
        exact List.mem_singleton.mpr rfl)
      refine ⟨max o offset, ?_, max_le hle ?_⟩
      · rw [Option.mem_def.mp ho]
        rfl
      · rcases hharmless (by rw [hstage]; rfl) with hfrom | ⟨o', ho', hle'⟩
        · exact hfrom
        · obtain rfl := Option.mem_unique ho ho'
          exact hle'.trans hle
    · have ha := h.after fresh hfresh
      refine behind_increaseOnly ha.stored (Harmless.behind ?_ ha.stored)
      exact hharmless (by rw [hfresh]; rfl)

/-- A step of the new queue. -/
lemma After.fresh {fresh q' : Queue} (h : After w s fresh) {a : ConcurrentConsume.Action}
    (hthread : fresh.thread w.messages s.offsetStore a = some q') :
    After w { s with offsetStore := q'.consume.offsetStore } q' := by
  have hw := (thread_spec hthread).2
  have hsub := hw.step.finished
  refine ⟨h.follows.thread hthread, ?_, fun o ho => (h.broker o ho).mono hsub,
    fun c hc hlate => (h.commits c hc hlate).mono hsub⟩
  dsimp only
  rw [hw.stored, entry]
  cases hwritten : written fresh.consume a with
  | none => exact fun o ho => (h.stored o ho).mono hsub
  | some offset =>
    exact behind_increaseOnly (fun o ho => (h.stored o ho).mono hsub)
      ((h.follows.behind hwritten).mono hsub)

/-- An offset that does no harm leaves an offset that is held. -/
lemma Harmless.held {recorded : Option ℤ} {offset : ℤ} (h : Harmless w recorded offset)
    (hheld : Held w recorded) : Held w (some offset) := by
  refine ⟨offset, rfl, ?_⟩
  rcases h with hle | ⟨o, ho, hle⟩
  · exact hle
  · obtain ⟨o', ho', hle'⟩ := hheld
    obtain rfl := Option.mem_unique ho ho'
    exact hle.trans hle'

/-- An offset arrives at the broker. -/
lemma Inv.arrive (h : Inv w s) {i : ℕ} {c : Commit} (hc : s.commits[i]? = some c)
    (hok : Timely w s (.commitOffset i)) :
    Inv w { s with broker := some c.offset, commits := s.commits.eraseIdx i } where
  before := fun hended => by
    have hb := h.before hended
    have hharmless : s.stage.persisted → Harmless w s.broker c.offset := fun hpersisted =>
      hok hpersisted c hc (hb.early c (List.mem_of_getElem? hc))
    refine ⟨fun c' hc' => hb.early c' (List.mem_of_mem_eraseIdx hc'), hb.contains,
      fun recorded hrecorded => ?_⟩
    have hheld := hb.held
    cases hstage : s.stage <;> rw [hstage] at hheld hrecorded hharmless
    case persistedAgain | removed =>
      obtain rfl := List.mem_singleton.mp hrecorded
      exact (hharmless rfl).held (hheld _ (List.mem_singleton.mpr rfl))
    case fetched lastOffset =>
      rcases List.mem_cons.mp hrecorded with rfl | hrecorded
      · exact hheld recorded List.mem_cons_self
      · obtain rfl := List.mem_singleton.mp hrecorded
        exact (hharmless rfl).held (hheld _ (List.mem_cons_of_mem _ (List.mem_singleton.mpr rfl)))
    all_goals exact hheld recorded hrecorded
  after := fun fresh hfresh => by
    have ha := h.after fresh hfresh
    refine ⟨ha.follows, ha.stored, fun o ho => ?_,
      fun c' hc' => ha.commits c' (List.mem_of_mem_eraseIdx hc')⟩
    cases ho
    cases hearly : c.early with
    | false => exact ha.commits c (List.mem_of_getElem? hc) hearly
    | true =>
      have hpersisted : s.stage.persisted := by
        rw [show s.stage = .ended fresh from hfresh]
        rfl
      exact (hok hpersisted c hc hearly).behind ha.broker

/-- A queue that starts where the reset says has passed no message by. -/
lemma follows_newQueue {lastOffset : Option ℤ} {first : ℤ} (h : Held w lastOffset) :
    Follows w (newQueue lastOffset first) where
  inv := inv_forget (ConcurrentConsume.inv_new lastOffset first)
  complete := fun k _ hfrom hbefore => by
    obtain ⟨o, ho, hle⟩ := h
    obtain rfl := Option.mem_def.mp ho
    exact absurd (hle.trans hfrom) (not_le.mpr hbefore)

lemma Held.behind {finished : List ℤ} {recorded : Option ℤ} (h : Held w recorded) :
    ∀ o ∈ recorded, Behind w finished o := by
  obtain ⟨o, ho, hle⟩ := h
  rintro o' ho'
  obtain rfl := Option.mem_unique ho ho'
  exact behind_of_le hle

lemma Held.orElse {offset recorded : Option ℤ} (h : Held w offset) :
    Held w (offset <|> recorded) := by
  obtain ⟨o, ho, hle⟩ := h
  obtain rfl := Option.mem_def.mp ho
  exact ⟨o, rfl, hle⟩

/-- A step of the reset, each of which hands on what the one before it wrote. -/
lemma Before.resetOffset {s' : State} (h : Before w s) (hs : resetOffset w s = some s') :
    Inv w s' := by
  obtain ⟨hearly, hcontains, hheld⟩ := h
  rw [DroppedQueue.resetOffset] at hs
  cases hstage : s.stage <;> rw [hstage] at hs hcontains hheld <;> cases hs
  case running | dropped | cleared | updated | persisting =>
    exact inv_of_before rfl ⟨hearly, fun _ => hcontains rfl,
      fun _ hrecorded => absurd hrecorded List.not_mem_nil⟩
  case waiting =>
    refine inv_of_before rfl ⟨hearly, fun _ => hcontains rfl, fun recorded hrecorded => ?_⟩
    obtain rfl := List.mem_singleton.mp hrecorded
    exact ⟨w.offset, rfl, le_rfl⟩
  case updatedAgain =>
    exact inv_of_before rfl ⟨hearly, fun _ => hcontains rfl, hheld⟩
  case persistingAgain offset =>
    refine inv_of_before rfl ⟨hearly, fun _ => hcontains rfl, fun recorded hrecorded => ?_⟩
    obtain rfl := List.mem_singleton.mp hrecorded
    exact (hheld offset (List.mem_singleton.mpr rfl)).orElse
  case persistedAgain =>
    exact inv_of_before rfl ⟨hearly, (fun hpulled => nomatch hpulled), hheld⟩
  case removed =>
    have hbroker : Held w s.broker := hheld s.broker (List.mem_singleton.mpr rfl)
    refine inv_of_before rfl
      ⟨hearly, (fun hpulled => nomatch hpulled), fun recorded hrecorded => ?_⟩
    rcases List.mem_cons.mp hrecorded with rfl | hrecorded
    · exact hbroker
    · exact hheld recorded hrecorded
  case fetched lastOffset =>
    have hlast : Held w lastOffset := hheld lastOffset List.mem_cons_self
    have hbroker : Held w s.broker :=
      hheld s.broker (List.mem_cons_of_mem _ (List.mem_singleton.mpr rfl))
    refine ⟨fun hended => (nomatch hended), fun fresh hfresh => ?_⟩
    cases hfresh
    refine ⟨follows_newQueue hlast, hlast.orElse.behind, hbroker.behind, fun c hc hlate => ?_⟩
    rw [hearly c hc] at hlate
    cases hlate

/-- A step of the thread that persists. -/
lemma Inv.persistAll {s' : State} (h : Inv w s) (hs : step w s .persistAll = some s') :
    Inv w s' := by
  have hcontains : s.persist ≠ .idle → s.persist ≠ .persisting true →
      s.stage.isEnded = false → s.stage.pulled → False := by
    intro hidle hpersisting hended hpulled
    rcases (h.before hended).contains hpulled with heq | heq
    · exact hidle heq
    · exact hpersisting heq
  dsimp only [step] at hs
  split at hs
  · rename_i offset _ hstored
    cases hs
    exact (h.send hstored).withPersist fun _ _ => .inl rfl
  · rename_i hpersist _
    cases hs
    refine h.withPersist fun hended hpulled => (hcontains ?_ ?_ hended hpulled).elim
    · rw [hpersist]
      exact fun heq => nomatch heq
    · rw [hpersist]
      exact fun heq => nomatch heq
  · cases hs
    exact h.withPersist fun _ _ => .inl rfl
  · rename_i hpersist
    cases hs
    have hstore : Inv w { s with offsetStore := none } := by
      refine h.withStore (fun hstage => ?_) fun _ _ _ ho => nomatch ho
      refine (hcontains ?_ ?_ ?_ ?_).elim
      · rw [hpersist]
        exact fun heq => nomatch heq
      · rw [hpersist]
        exact fun heq => nomatch heq
      · rw [hstage]
        rfl
      · rw [hstage]
        rfl
    exact hstore.withPersist fun _ _ => .inl rfl
  · cases hs

theorem inv_step {s' : State} {a : Action} (h : Inv w s) (hok : Timely w s a)
    (hs : step w s a = some s') : Inv w s' := by
  cases a with
  | old a =>
    obtain ⟨⟨q', t⟩, hqueue, rfl⟩ := Option.map_eq_some_iff.mp hs
    refine Inv.withOld ?_ q'
    rcases onQueue_cases hqueue with ⟨-, rfl | ⟨offset, hoffset, rfl⟩⟩ | ⟨a, rfl, hthread, rfl⟩
    · exact h
    · exact h.send hoffset
    · exact h.old hok hthread
  | fresh a =>
    dsimp only [step] at hs
    split at hs
    · rename_i fresh hfresh
      obtain ⟨⟨q', t⟩, hqueue, rfl⟩ := Option.map_eq_some_iff.mp hs
      refine ⟨fun hended => (nomatch hended), fun fresh' hfresh' => ?_⟩
      cases hfresh'
      rcases onQueue_cases hqueue with ⟨hsame, hsend⟩ | ⟨a, rfl, hthread, rfl⟩
      · have hafter : After w t fresh := by
          rcases hsend with rfl | ⟨offset, hoffset, rfl⟩
          · exact h.after fresh hfresh
          · exact (h.send hoffset).after fresh hfresh
        obtain ⟨hfollows, hstored, hbroker, hcommits⟩ := hafter
        rw [← hsame] at hstored hbroker hcommits
        refine ⟨⟨?_, ?_⟩, hstored, hbroker, hcommits⟩
        · rw [hsame]
          exact hfollows.inv
        · rw [hsame]
          exact hfollows.complete
      · obtain ⟨hfollows, hstored, hbroker, hcommits⟩ := (h.after fresh hfresh).fresh hthread
        exact ⟨hfollows, hstored, hbroker, hcommits⟩
    · cases hs
  | resetOffset =>
    have hended : s.stage.isEnded = false := by
      cases hstage : s.stage with
      | ended fresh =>
        dsimp only [step] at hs
        rw [DroppedQueue.resetOffset, hstage] at hs
        cases hs
      | _ => rfl
    exact (h.before hended).resetOffset hs
  | persistConsumerOffset =>
    dsimp only [step] at hs
    split at hs
    · cases hs
      refine h.withPersist fun _ hpulled => .inr ?_
      rw [hpulled]
    · cases hs
  | persistAll => exact h.persistAll hs
  | commitOffset i =>
    dsimp only [step] at hs
    split at hs
    · rename_i c hc
      cases hs
      exact h.arrive hc hok
    · cases hs

end

/-- **Resets and late threads.** In a run where the late threads of the old queue write no greater
offset at the wrong time, neither the offset store nor the broker ever has an offset, once the new
queue is there, greater than that of a message from the reset on which is not finished. -/
theorem not_overtaken (as : List Action) (s : State) (hrun : run (step w) (newState w) as = some s)
    (hm : Meets (step w) (Timely w) (newState w) as) : NotOvertaken w s :=
  (run_invariant (fun _ _ _ h hok hs => inv_step h hok hs) inv_new hm hrun : Inv w s).notOvertaken

end

instance (w : Setting) (recorded : Option ℤ) (offset : ℤ) :
    Decidable (Harmless w recorded offset) :=
  inferInstanceAs (Decidable (offset ≤ w.offset ∨ ∃ o ∈ recorded, offset ≤ o))

def timely (w : Setting) (s : State) : Action → Bool
  | .old (.thread a) => !s.stage.exposed ||
      (written s.old.consume a).all fun offset => decide (Harmless w s.offsetStore offset)
  | .commitOffset i => !s.stage.persisted ||
      s.commits[i]?.all fun c => !c.early || decide (Harmless w s.broker c.offset)
  | _ => true

lemma timely_spec {w : Setting} (s : State) (a : Action) (h : timely w s a) : Timely w s a := by
  cases a with
  | old a =>
    cases a with
    | thread a =>
      intro hexposed offset hoffset
      rw [timely, hexposed, Option.mem_def.mp hoffset] at h
      exact of_decide_eq_true h
    | _ => trivial
  | commitOffset i =>
    intro hpersisted c hc hearly
    rw [timely, hpersisted, Option.mem_def.mp hc, Option.all_some, hearly] at h
    exact of_decide_eq_true h
  | _ => trivial

/-- Two messages, and a reset to the first of them. -/
def toFirst : Setting := ⟨5, [5, 6], some 5, 0⟩

/-- Both messages are consumed, and the queue is pulled again. -/
def consumed : List Action :=
  [.old .pullMessage, .old .pullKernelImpl, .old (.thread (.found [⟨5, none⟩, ⟨6, none⟩] 7)),
    .old (.thread (.submitConsumeRequest 2)),
    .old (.thread (.consumeMessage 0 .CONSUME_SUCCESS 1)),
    .old (.thread (.submitConsumeRequestLater 0)), .old (.thread (.removeMessage 0)),
    .old (.thread (.updateOffset 0)), .old .pullMessage, .old .pullKernelImpl]

def reset : List Action := List.replicate 11 .resetOffset

def after (as : List Action) : State :=
  (run (step toFirst) (newState toFirst) as).getD (newState toFirst)

/-- The last pull of the old queue ends in an exception; the new one acknowledges a message. -/
def pulledAgain : List Action :=
  consumed ++ reset ++
    [.old .onException, .fresh .pullMessage, .fresh .pullKernelImpl,
      .fresh (.thread (.found [⟨5, none⟩, ⟨6, none⟩] 7)),
      .fresh (.thread (.submitConsumeRequest 1)),
      .fresh (.thread (.consumeMessage 0 .CONSUME_SUCCESS 1)),
      .fresh (.thread (.submitConsumeRequestLater 0)), .fresh (.thread (.removeMessage 0)),
      .fresh (.thread (.updateOffset 0)), .persistConsumerOffset, .persistAll, .commitOffset 3]

theorem not_overtaken_pulledAgain : NotOvertaken toFirst (after pulledAgain) :=
  not_overtaken pulledAgain _ rfl (meets_of_checks timely_spec (by decide))

example : (after pulledAgain).broker = some 6 := by decide

/-- The broker holds the last pull of the old queue, and answers it after the reset. -/
def heldPull : List Action :=
  consumed ++ reset ++
    [.old (.thread (.noNewMsg 7)), .old (.thread .correctTagsOffset),
      .old (.thread .updateTagsOffset)]

/-- The answer finds no message counted, and its offset is taken for the progress of the new queue,
which has delivered nothing. -/
theorem reset_overtaken :
    run (step toFirst) (newState toFirst) heldPull = some (after heldPull) ∧
      ¬ NotOvertaken toFirst (after heldPull) := by
  refine ⟨rfl, fun h => ?_⟩
  obtain ⟨fresh, hfresh, hfinished⟩ : ∃ fresh, (after heldPull).stage = .ended fresh ∧
      fresh.consume.finished = [] := ⟨_, rfl, rfl⟩
  have hstored : (after heldPull).offsetStore = some 7 := rfl
  have hle := (h fresh hfresh).1 7 hstored 5 List.mem_cons_self le_rfl (by
    rw [hfinished]
    exact List.not_mem_nil)
  omega

end CloudMQ.DroppedQueue
