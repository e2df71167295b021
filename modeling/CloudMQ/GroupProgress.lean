import CloudMQ.ConcurrentConsume
import CloudMQ.PullFromWhere

/-!
The progress of a group in one queue, while the queue goes from consumer to consumer.

A client that is given the queue reads the progress from the broker and pulls from there; a client
that loses it goes on with what it has begun, and may be given the queue again. What clients tell
the broker may be late, overtaken or lost, and the broker may forget what it has not written down.
-/

namespace CloudMQ.GroupProgress

open CloudMQ.Lists CloudMQ.PulledMessages CloudMQ.ConcurrentConsume CloudMQ.PullFromWhere
open CloudMQ.TopicRoutes CloudMQ.Runs

/-! ### Consumers, their offset stores, and the broker -/

/-- What the members of a group share, and where each of them starts without progress. -/
structure Group where
  mq : MessageQueue
  matched : MessageExt → Bool
  settings : ℕ → Settings
  admin : MQAdminImpl

/-- A process queue of a client, from the offset it was pulled from first. -/
structure Consumer where
  clientId : ℕ
  start : ℤ
  state : ConcurrentConsume.State

/-- The store has the offset that was read. -/
def newConsumer (clientId : ℕ) (lastOffset nextOffset : ℤ) : Consumer :=
  ⟨clientId, nextOffset,
    { ConcurrentConsume.computePullFromWhere (some lastOffset) 0 with nextOffset := nextOffset }⟩

structure System where
  /-- the messages of the queue -/
  queue : List MessageExt
  /-- whoever was given the queue, now or before -/
  consumers : List Consumer
  /-- what the offset store of a client has for the queue -/
  offsetTable : ℕ → Option ℤ
  /-- progress on its way to the broker -/
  commits : List ℤ
  /-- answers of the broker on their way to a client -/
  answers : List (ℕ × ℤ)
  brokerOffset : ℤ
  persisted : ℤ

/-- Messages lie at their queue offsets. -/
def numbered (msgs : List MessageExt) : List MessageExt :=
  msgs.mapIdx fun k m => { m with queueOffset := k }

/-- Nobody has the queue; the group has come to an offset before. -/
def newSystem (msgs : List MessageExt) (offset : ℕ) : System :=
  ⟨numbered msgs, [], fun _ => none, [], [], offset, offset⟩

inductive Action
  | putMessage (m : MessageExt)
  /-- the answer to a pull, up to an offset -/
  | pull (i : ℕ) (nextBeginOffset : ℤ) (found : Bool)
  /-- another step of a consumer -/
  | consume (i : ℕ) (a : ConcurrentConsume.Action)
  /-- `persistAll`, `persist`, or the progress that a pull takes along -/
  | persist (clientId : ℕ)
  | removeOffset (clientId : ℕ)
  | commitOffset (j : ℕ)
  | loseCommit (j : ℕ)
  | queryOffset (clientId : ℕ)
  /-- `readOffset` from the store, and the pull request of a new process queue -/
  | newProcessQueue (j : ℕ)
  | persistBroker
  | restartBroker

def isPull : ConcurrentConsume.Action → Bool
  | .found _ _ => true
  | .noNewMsg _ => true
  | _ => false

namespace System

/-- What the broker finds for a pull, after the filters. -/
def getMessage (g : Group) (s : System) (offset nextBeginOffset : ℤ) : List MessageExt :=
  ((s.queue.take nextBeginOffset.toNat).drop offset.toNat).filter g.matched

/-- A step of a consumer, with the entry that its client has in the offset store. -/
def move (s : System) (i : ℕ) (c : Consumer) (a : ConcurrentConsume.Action) : Option System :=
  (ConcurrentConsume.step { c.state with offsetStore := s.offsetTable c.clientId } a).map
    fun state => { s with
      consumers := s.consumers.set i { c with state := state }
      offsetTable := Function.update s.offsetTable c.clientId state.offsetStore }

def step (g : Group) (s : System) : Action → Option System
  | .putMessage m => some { s with queue := s.queue ++ [{ m with queueOffset := s.queue.length }] }
  | .pull i nextBeginOffset found => s.consumers[i]?.bind fun c =>
    if c.state.nextOffset ≤ nextBeginOffset ∧ nextBeginOffset ≤ s.queue.length then
      let msgs := s.getMessage g c.state.nextOffset nextBeginOffset
      if found then s.move i c (.found msgs nextBeginOffset)
      else if msgs.isEmpty then s.move i c (.noNewMsg nextBeginOffset)
      else none
    else none
  | .consume i a => s.consumers[i]?.bind fun c => if isPull a then none else s.move i c a
  | .persist clientId => (s.offsetTable clientId).map fun offset =>
    { s with commits := s.commits ++ [offset] }
  | .removeOffset clientId =>
    some { s with offsetTable := Function.update s.offsetTable clientId none }
  | .commitOffset j => s.commits[j]?.map fun offset =>
    { s with commits := s.commits.eraseIdx j, brokerOffset := offset }
  | .loseCommit j => if j < s.commits.length then some { s with commits := s.commits.eraseIdx j }
    else none
  | .queryOffset clientId => some { s with answers := s.answers ++ [(clientId, s.brokerOffset)] }
  | .newProcessQueue j => s.answers[j]?.bind fun (clientId, lastOffset) =>
    let s := { s with
      answers := s.answers.eraseIdx j
      offsetTable := Function.update s.offsetTable clientId (some lastOffset) }
    (PullFromWhere.computePullFromWhere (g.settings clientId) g.admin g.mq lastOffset).map
      fun nextOffset =>
        if 0 ≤ nextOffset then
          { s with consumers := s.consumers ++ [newConsumer clientId lastOffset nextOffset] }
        else s
  | .persistBroker => some { s with persisted := s.brokerOffset }
  | .restartBroker => some { s with brokerOffset := s.persisted }

end System

/-! ### The promise -/

section Promise

variable (g : Group) (first : ℤ)

/-- The offsets of the messages that some consumer has acknowledged or sent back. -/
def System.finished (s : System) : List ℤ := s.consumers.flatMap fun c => c.state.finished

/-- Messages that the group has to consume, and has not. -/
def System.Due (s : System) (m : MessageExt) : Prop :=
  m ∈ s.queue ∧ g.matched m ∧ first ≤ m.queueOffset ∧ m.queueOffset ∉ s.finished

/-- **No message is lost** between consumers: the broker's progress, written down or not, is not
behind any message that is due, and each consumer still has it to pull or keeps it until it is
consumed. -/
structure NothingLost (s : System) : Prop where
  brokerOffset : ∀ m, s.Due g first m → s.brokerOffset ≤ m.queueOffset
  persisted : ∀ m, s.Due g first m → s.persisted ≤ m.queueOffset
  consumers : ∀ c ∈ s.consumers, ∀ m, s.Due g first m → c.state.nextOffset ≤ m.queueOffset ∨
    m.queueOffset ∈ c.state.processQueue.msgTreeMap

end Promise

/-! ### Steps of a consumer -/

/-- Offsets that a thread is about to write into the offset store. -/
def Pending (s : ConcurrentConsume.State) (offset : ℤ) : Prop :=
  (∃ r ∈ s.requests, r.stage = .updating offset) ∨ s.pullStage = .updating offset

/-- What a step may do: it pulls messages up to an offset, or none. -/
structure Moves (s s' : ConcurrentConsume.State) (nextOffset : ℤ) (msgs : List MessageExt) :
    Prop where
  nextOffset : s'.nextOffset = nextOffset
  pulled : s'.pulled = s.pulled ++ offsets msgs
  finished : s.finished ⊆ s'.finished
  offsetStore : s'.offsetStore = s.offsetStore ∨
    ∃ offset, Pending s offset ∧ s'.offsetStore = increaseOnly s.offsetStore offset
  pending : ∀ offset, Pending s' offset → Pending s offset ∨ offset = s.nextOffset ∨ 0 ≤ offset

section Moves

variable {s s' : ConcurrentConsume.State}

/-- Requests that change give no offset but the ones they had, and those found not negative. -/
lemma pending_set {i : ℕ} {r : ConsumeRequest} {offset : ℤ}
    (hr : ∀ offset, r.stage = .updating offset → 0 ≤ offset)
    (h : ∃ r' ∈ s.requests.set i r, r'.stage = .updating offset) :
    (∃ r' ∈ s.requests, r'.stage = .updating offset) ∨ 0 ≤ offset := by
  obtain ⟨r', hr', hoffset⟩ := h
  rcases List.mem_or_eq_of_mem_set hr' with hold | rfl
  · exact .inl ⟨r', hold, hoffset⟩
  · exact .inr (hr offset hoffset)

lemma pending_submit {n : ℕ} {msgs : List MessageExt} {offset : ℤ}
    (h : ∃ r ∈ s.requests ++ submitConsumeRequest n msgs, r.stage = .updating offset) :
    ∃ r ∈ s.requests, r.stage = .updating offset := by
  obtain ⟨r, hr, hoffset⟩ := h
  rcases List.mem_append.mp hr with hold | hnew
  · exact ⟨r, hold, hoffset⟩
  · rw [stage_of_mem_submit hnew] at hoffset
    cases hoffset

lemma moves_found {msgs : List MessageExt} {nextBeginOffset : ℤ}
    (hs : ConcurrentConsume.step s (.found msgs nextBeginOffset) = some s') :
    Moves s s' nextBeginOffset msgs := by
  dsimp only [ConcurrentConsume.step] at hs
  split at hs
  · rename_i hpull
    split_ifs at hs with hanswer hempty
    · cases hs
      rw [List.isEmpty_iff] at hempty
      subst hempty
      exact ⟨rfl, (List.append_nil _).symm, List.Subset.refl _, .inl rfl, fun _ h => .inl h⟩
    · cases hs
      refine ⟨rfl, rfl, List.Subset.refl _, .inl rfl, fun offset h => .inl ?_⟩
      exact h.imp_right fun hstage => nomatch hstage
  · cases hs

lemma moves_noNewMsg {nextBeginOffset : ℤ}
    (hs : ConcurrentConsume.step s (.noNewMsg nextBeginOffset) = some s') :
    Moves s s' nextBeginOffset [] := by
  dsimp only [ConcurrentConsume.step] at hs
  split at hs
  · split_ifs at hs with hnext
    cases hs
    refine ⟨rfl, (List.append_nil _).symm, List.Subset.refl _, .inl rfl, fun offset h => .inl ?_⟩
    exact h.imp_right fun hstage => nomatch hstage
  · cases hs

/-- A step that pulls nothing and leaves the offset store alone. -/
lemma moves_of_requests {processQueue : ProcessQueue} {pullStage : PullStage}
    {requests : List ConsumeRequest} {laters : List (List MessageExt)} {finished : List ℤ}
    (hfinished : s.finished ⊆ finished)
    (hpull : ∀ offset, pullStage = .updating offset →
      s.pullStage = .updating offset ∨ offset = s.nextOffset)
    (hrequests : ∀ offset, (∃ r ∈ requests, r.stage = .updating offset) →
      (∃ r ∈ s.requests, r.stage = .updating offset) ∨ 0 ≤ offset) :
    Moves s { s with processQueue, pullStage, requests, laters, finished } s.nextOffset [] := by
  refine ⟨rfl, (List.append_nil _).symm, hfinished, .inl rfl, fun offset h => ?_⟩
  rcases h with hrequest | hupdating
  · exact (hrequests offset hrequest).imp .inl .inr
  · rcases hpull offset hupdating with hold | hnext
    · exact .inl (.inr hold)
    · exact .inr (.inl hnext)

lemma moves_step {a : ConcurrentConsume.Action} (ha : isPull a = false)
    (hs : ConcurrentConsume.step s a = some s') : Moves s s' s.nextOffset [] := by
  have hsame : ∀ offset, s.pullStage = .updating offset →
      s.pullStage = .updating offset ∨ offset = s.nextOffset := fun _ h => .inl h
  have hrefl := List.Subset.refl s.finished
  cases a with
  | found msgs nextBeginOffset => cases ha
  | noNewMsg nextBeginOffset => cases ha
  | submitConsumeRequest consumeBatchSize =>
    dsimp only [ConcurrentConsume.step] at hs
    split at hs
    · split_ifs at hs
      cases hs
      exact moves_of_requests hrefl (fun _ h => by cases h) fun _ h => .inl (pending_submit h)
    · cases hs
  | correctTagsOffset =>
    dsimp only [ConcurrentConsume.step] at hs
    split at hs
    · cases hs
      refine moves_of_requests hrefl (fun offset h => ?_) fun _ h => .inl h
      split_ifs at h
      cases h
      exact .inr rfl
    · cases hs
  | updateTagsOffset =>
    dsimp only [ConcurrentConsume.step] at hs
    split at hs
    · rename_i offset hpull
      cases hs
      refine ⟨rfl, (List.append_nil _).symm, hrefl, .inr ⟨offset, .inr hpull, rfl⟩, fun _ h => ?_⟩
      exact .inl (h.imp_right fun hstage => nomatch hstage)
    · cases hs
  | consumeMessage i status ackIndex =>
    dsimp only [ConcurrentConsume.step] at hs
    split at hs
    · rename_i msgs hr
      have hended : Moves s { s with requests := s.requests.set i ⟨msgs, .ended⟩ }
          s.nextOffset [] :=
        moves_of_requests hrefl hsame fun _ => pending_set fun _ h => nomatch h
      split_ifs at hs
      · cases hs
        exact hended
      · split at hs
        · cases hs
          refine moves_of_requests (List.subset_append_left _ _) hsame fun _ => ?_
          exact pending_set fun _ h => nomatch h
        · cases hs
          exact hended
    · cases hs
  | sendMessageBack i result =>
    dsimp only [ConcurrentConsume.step] at hs
    split at hs
    · split at hs
      · split_ifs at hs
        · cases hs
          refine moves_of_requests (List.subset_append_left _ _) hsame fun _ => ?_
          exact pending_set fun _ h => nomatch h
        · cases hs
          exact moves_of_requests hrefl hsame fun _ => pending_set fun _ h => nomatch h
      · cases hs
    · cases hs
  | submitConsumeRequestLater i =>
    dsimp only [ConcurrentConsume.step] at hs
    split at hs
    · split_ifs at hs
      all_goals
        cases hs
        exact moves_of_requests hrefl hsame fun _ => pending_set fun _ h => nomatch h
    · cases hs
  | removeMessage i =>
    dsimp only [ConcurrentConsume.step] at hs
    split at hs
    · cases hs
      refine moves_of_requests hrefl hsame fun _ => pending_set fun offset h => ?_
      dsimp only at h
      split_ifs at h with hle
      cases h
      exact hle
    · cases hs
  | updateOffset i =>
    dsimp only [ConcurrentConsume.step] at hs
    split at hs
    · rename_i msgs offset hr
      cases hs
      refine ⟨rfl, (List.append_nil _).symm, hrefl,
        .inr ⟨offset, .inl ⟨_, List.mem_of_getElem? hr, rfl⟩, rfl⟩, fun offset' h => ?_⟩
      have hended : ∀ offset, ConsumeStage.ended = .updating offset → 0 ≤ offset :=
        fun _ hstage => nomatch hstage
      rcases h with hrequest | hupdating
      · exact (pending_set hended hrequest).imp .inl .inr
      · exact .inl (.inr hupdating)
    · cases hs
  | resubmit i consumeBatchSize =>
    dsimp only [ConcurrentConsume.step] at hs
    split at hs
    · split_ifs at hs
      cases hs
      exact moves_of_requests hrefl hsame fun _ h => .inl (pending_submit h)
    · cases hs

/-- A consumer without its entry in the offset store. -/
def forget (s : ConcurrentConsume.State) : ConcurrentConsume.State := { s with offsetStore := none }

/-- What a step does to all but the offset store does not depend on the offset store. -/
lemma step_forget (a : ConcurrentConsume.Action) :
    (ConcurrentConsume.step (forget s) a).map forget = (ConcurrentConsume.step s a).map forget := by
  unfold ConcurrentConsume.step forget
  cases a with
  | found | submitConsumeRequest | noNewMsg | correctTagsOffset | updateTagsOffset =>
    dsimp only
    split <;> (try split_ifs) <;> rfl
  | consumeMessage =>
    dsimp only
    split <;> (try split_ifs) <;> (try split) <;> rfl
  | sendMessageBack | submitConsumeRequestLater | removeMessage | updateOffset =>
    dsimp only
    split <;> (try split) <;> (try split_ifs) <;> rfl
  | resubmit =>
    dsimp only
    split <;> (try split_ifs) <;> rfl

/-- The invariant of a consumer does not speak of what others have put into the offset store. -/
lemma inv_forget (h : ConcurrentConsume.Inv s) : ConcurrentConsume.Inv (forget s) := by
  refine h.frame rfl rfl rfl (List.Subset.refl _) (fun offset ho => ?_) h.accounted
  rcases ho with hstored | hrest
  · cases hstored
  · exact .inr hrest

lemma inv_moves {a : ConcurrentConsume.Action} (h : ConcurrentConsume.Inv (forget s))
    (hs : ConcurrentConsume.step s a = some s') : ConcurrentConsume.Inv (forget s') := by
  have hforget := step_forget (s := s) a
  rw [hs, Option.map_some] at hforget
  obtain ⟨t, ht, heq⟩ := Option.map_eq_some_iff.mp hforget
  exact heq ▸ inv_forget (ConcurrentConsume.inv_step h ht)

end Moves

/-! ### The invariant -/

section Invariant

variable (g : Group) (first : ℤ)

/-- An offset that is not behind any message that is due. -/
structure Sound (s : System) (offset : ℤ) : Prop where
  nonneg : 0 ≤ offset
  le : offset ≤ s.queue.length
  passed : ∀ m, s.Due g first m → offset ≤ m.queueOffset

/-- A consumer has pulled what there is from its start on, and started at the right place. -/
structure Held (s : System) (c : Consumer) : Prop where
  inv : ConcurrentConsume.Inv (forget c.state)
  start : Sound g first s c.start
  start_le : c.start ≤ c.state.nextOffset
  le : c.state.nextOffset ≤ s.queue.length
  covered : ∀ m ∈ s.queue, g.matched m → c.start ≤ m.queueOffset →
    m.queueOffset < c.state.nextOffset → m.queueOffset ∈ c.state.pulled
  pending : ∀ offset, Pending c.state offset → 0 ≤ offset

structure GroupInv (s : System) : Prop where
  queue : ∀ (k : ℕ) (m : MessageExt), s.queue[k]? = some m → m.queueOffset = k
  consumers : ∀ c ∈ s.consumers, Held g first s c
  offsetTable : ∀ i offset, s.offsetTable i = some offset → Sound g first s offset
  commits : ∀ offset ∈ s.commits, Sound g first s offset
  answers : ∀ x ∈ s.answers, Sound g first s x.2
  brokerOffset : Sound g first s s.brokerOffset
  persisted : Sound g first s s.persisted

/-- Messages come behind the others, and what was finished stays so. -/
structure Later (s s' : System) : Prop where
  length : s.queue.length ≤ s'.queue.length
  queue : ∀ m ∈ s'.queue, m ∈ s.queue ∨ (s.queue.length : ℤ) ≤ m.queueOffset
  finished : s.finished ⊆ s'.finished

variable {g first} {s s' : System} {c : Consumer}

lemma later_of_consumers {consumers : List Consumer} {offsetTable : ℕ → Option ℤ}
    {commits : List ℤ} {answers : List (ℕ × ℤ)} {brokerOffset persisted : ℤ}
    (h : s.finished ⊆ consumers.flatMap fun c => c.state.finished) :
    Later s ⟨s.queue, consumers, offsetTable, commits, answers, brokerOffset, persisted⟩ :=
  ⟨le_rfl, fun _ hm => .inl hm, h⟩

lemma Sound.later {offset : ℤ} (h : Sound g first s offset) (hl : Later s s') :
    Sound g first s' offset := by
  refine ⟨h.nonneg, h.le.trans (by exact_mod_cast hl.length), fun m hm => ?_⟩
  rcases hl.queue m hm.1 with hold | hnew
  · exact h.passed m ⟨hold, hm.2.1, hm.2.2.1, fun hin => hm.2.2.2 (hl.finished hin)⟩
  · exact h.le.trans hnew

lemma Held.later (h : Held g first s c) (hl : Later s s') : Held g first s' c where
  inv := h.inv
  start := h.start.later hl
  start_le := h.start_le
  le := h.le.trans (by exact_mod_cast hl.length)
  covered m hm hmatched hstart hlt := by
    rcases hl.queue m hm with hold | hnew
    · exact h.covered m hold hmatched hstart hlt
    · exact absurd (hlt.trans_le h.le) (not_lt.mpr hnew)
  pending := h.pending

/-- A message that is due is still to be pulled, or kept. -/
lemma Held.keeps (h : Held g first s c) (hc : c ∈ s.consumers) {m : MessageExt}
    (hm : s.Due g first m) :
    c.state.nextOffset ≤ m.queueOffset ∨ Unfinished c.state m.queueOffset := by
  have hstart := h.start.passed m hm
  obtain ⟨hqueue, hmatched, -, hnot⟩ := hm
  rcases le_or_gt c.state.nextOffset m.queueOffset with hle | hlt
  · exact .inl hle
  · refine .inr ⟨h.covered m hqueue hmatched hstart hlt, fun hin => hnot ?_⟩
    exact List.mem_flatMap.mpr ⟨c, hc, hin⟩

/-- What a thread is about to write into the offset store. -/
lemma Held.sound_pending (h : Held g first s c) (hc : c ∈ s.consumers) {offset : ℤ}
    (ho : Pending c.state offset) : Sound g first s offset := by
  obtain ⟨hle, hall⟩ := h.inv.reported offset (.inr ho)
  refine ⟨h.pending offset ho, hle.trans h.le, fun m hm => ?_⟩
  rcases h.keeps hc hm with hnext | hunfinished
  · exact hle.trans hnext
  · exact hall _ hunfinished

lemma GroupInv.nothingLost (h : GroupInv g first s) : NothingLost g first s where
  brokerOffset := h.brokerOffset.passed
  persisted := h.persisted.passed
  consumers c hc _ hm := ((h.consumers c hc).keeps hc hm).imp_right ((h.consumers c hc).inv.kept _)

lemma finished_set {i : ℕ} (hi : s.consumers[i]? = some c) {state : ConcurrentConsume.State}
    (h : c.state.finished ⊆ state.finished) : s.finished ⊆
      (s.consumers.set i { c with state := state }).flatMap fun c => c.state.finished := by
  intro k hk
  obtain ⟨c', hc', hk⟩ := List.mem_flatMap.mp hk
  obtain ⟨j, hj⟩ := List.mem_iff_getElem?.mp hc'
  by_cases hij : i = j
  · subst hij
    obtain rfl := Option.some.inj (hi.symm.trans hj)
    exact List.mem_flatMap.mpr ⟨_, List.mem_of_getElem? (getElem?_set_of_getElem? hi), h hk⟩
  · have hsame := (List.getElem?_set_ne hij (a := { c with state := state })).trans hj
    exact List.mem_flatMap.mpr ⟨c', List.mem_of_getElem? hsame, hk⟩

/-- All in the queue between two offsets is found, after the filters. -/
lemma mem_getMessage
    (hqueue : ∀ (k : ℕ) (m : MessageExt), s.queue[k]? = some m → m.queueOffset = k)
    {a b : ℤ} {m : MessageExt} (hm : m ∈ s.queue) (hmatched : g.matched m) (ha : a ≤ m.queueOffset)
    (hb : m.queueOffset < b) : m ∈ s.getMessage g a b := by
  obtain ⟨k, hk⟩ := List.mem_iff_getElem?.mp hm
  have hoffset := hqueue k m hk
  refine List.mem_filter.mpr ⟨List.mem_iff_getElem?.mpr ⟨k - a.toNat, ?_⟩, hmatched⟩
  rw [List.getElem?_drop, List.getElem?_take, if_pos (by omega), ← hk]
  congr 1
  omega

/-- A step of a consumer that pulls messages up to an offset, or none. -/
lemma GroupInv.move (h : GroupInv g first s) {i : ℕ} (hi : s.consumers[i]? = some c)
    {a : ConcurrentConsume.Action} {state : ConcurrentConsume.State} {nextOffset : ℤ}
    {msgs : List MessageExt}
    (hs : ConcurrentConsume.step { c.state with offsetStore := s.offsetTable c.clientId } a =
      some state)
    (hm : Moves { c.state with offsetStore := s.offsetTable c.clientId } state nextOffset msgs)
    (hnext : c.state.nextOffset ≤ nextOffset)
    (hle : nextOffset ≤ s.queue.length)
    (hmsgs : ∀ m ∈ s.queue, g.matched m → c.state.nextOffset ≤ m.queueOffset →
      m.queueOffset < nextOffset → m.queueOffset ∈ offsets msgs) :
    GroupInv g first { s with
      consumers := s.consumers.set i { c with state := state }
      offsetTable := Function.update s.offsetTable c.clientId state.offsetStore } := by
  have hc := List.mem_of_getElem? hi
  have hheld := h.consumers c hc
  have hinv := inv_moves (s := { c.state with offsetStore := s.offsetTable c.clientId })
    hheld.inv hs
  have hl : Later s { s with
      consumers := s.consumers.set i { c with state := state }
      offsetTable := Function.update s.offsetTable c.clientId state.offsetStore } :=
    later_of_consumers (finished_set hi hm.finished)
  refine ⟨h.queue, fun c' hc' => ?_, fun j offset hoffset => ?_,
    fun offset ho => (h.commits offset ho).later hl, fun x hx => (h.answers x hx).later hl,
    h.brokerOffset.later hl, h.persisted.later hl⟩
  · rcases List.mem_or_eq_of_mem_set hc' with hold | rfl
    · exact (h.consumers c' hold).later hl
    · refine ⟨hinv, hheld.start.later hl, ?_, ?_, fun m hm' hmatched hstart hlt => ?_,
        fun offset ho => ?_⟩
      · exact hm.nextOffset ▸ hheld.start_le.trans hnext
      · exact hm.nextOffset ▸ hle
      · rw [hm.nextOffset] at hlt
        rw [hm.pulled]
        rcases lt_or_ge m.queueOffset c.state.nextOffset with hold | hnew
        · exact List.mem_append_left _ (hheld.covered m hm' hmatched hstart hold)
        · exact List.mem_append_right _ (hmsgs m hm' hmatched hnew hlt)
      · rcases hm.pending offset ho with hold | rfl | hnonneg
        · exact hheld.pending offset hold
        · exact hheld.start.nonneg.trans hheld.start_le
        · exact hnonneg
  · by_cases hj : j = c.clientId
    · subst hj
      dsimp only at hoffset
      rw [Function.update_self] at hoffset
      rcases hm.offsetStore with hsame | ⟨offset', hpending, hstore⟩
      · exact (h.offsetTable _ offset (hsame ▸ hoffset)).later hl
      · rcases increaseOnly_cases (hstore ▸ hoffset) with rfl | hold
        · exact (hheld.sound_pending hc hpending).later hl
        · exact (h.offsetTable _ offset hold).later hl
    · dsimp only at hoffset
      rw [Function.update_of_ne hj] at hoffset
      exact (h.offsetTable j offset hoffset).later hl

/-! ### Steps of the system -/

lemma inv_new {msgs : List MessageExt} {offset : ℕ} (h : offset ≤ msgs.length) :
    GroupInv g offset (newSystem msgs offset) := by
  have hsound : Sound g offset (newSystem msgs offset) offset := by
    refine ⟨Int.natCast_nonneg _, ?_, fun m hm => hm.2.2.1⟩
    simpa [newSystem, numbered] using h
  refine ⟨fun k m hk => ?_, by simp [newSystem], nofun, by simp [newSystem], by simp [newSystem],
    hsound, hsound⟩
  simp only [newSystem, numbered, List.getElem?_mapIdx, Option.map_eq_some_iff] at hk
  obtain ⟨m', -, rfl⟩ := hk
  rfl

lemma GroupInv.putMessage (h : GroupInv g first s) (m : MessageExt) :
    GroupInv g first { s with queue := s.queue ++ [{ m with queueOffset := s.queue.length }] } := by
  have hl : Later s { s with queue := s.queue ++ [{ m with queueOffset := s.queue.length }] } := by
    refine ⟨by simp, fun m' hm' => ?_, List.Subset.refl _⟩
    rcases List.mem_append.mp hm' with hold | hnew
    · exact .inl hold
    · obtain rfl := List.mem_singleton.mp hnew
      exact .inr le_rfl
  refine ⟨fun k m' hk => ?_, fun c hc => (h.consumers c hc).later hl,
    fun i offset ho => (h.offsetTable i offset ho).later hl,
    fun offset ho => (h.commits offset ho).later hl, fun x hx => (h.answers x hx).later hl,
    h.brokerOffset.later hl, h.persisted.later hl⟩
  rcases getElem?_concat_cases hk with ⟨rfl, rfl⟩ | hold
  · rfl
  · exact h.queue k m' hold

/-- Offsets go from place to place. -/
lemma GroupInv.carry (h : GroupInv g first s) {offsetTable : ℕ → Option ℤ} {commits : List ℤ}
    {answers : List (ℕ × ℤ)} {brokerOffset persisted : ℤ}
    (htable : ∀ i offset, offsetTable i = some offset → Sound g first s offset)
    (hcommits : ∀ offset ∈ commits, Sound g first s offset)
    (hanswers : ∀ x ∈ answers, Sound g first s x.2) (hbroker : Sound g first s brokerOffset)
    (hpersisted : Sound g first s persisted) : GroupInv g first
      ⟨s.queue, s.consumers, offsetTable, commits, answers, brokerOffset, persisted⟩ := by
  have hl : Later s ⟨s.queue, s.consumers, offsetTable, commits, answers, brokerOffset,
      persisted⟩ := later_of_consumers (List.Subset.refl _)
  exact ⟨h.queue, fun c hc => (h.consumers c hc).later hl,
    fun i offset ho => (htable i offset ho).later hl,
    fun offset ho => (hcommits offset ho).later hl, fun x hx => (hanswers x hx).later hl,
    hbroker.later hl, hpersisted.later hl⟩

lemma sound_update {offsetTable : ℕ → Option ℤ} {clientId : ℕ} {entry : Option ℤ}
    (h : ∀ i offset, offsetTable i = some offset → Sound g first s offset)
    (hentry : ∀ offset, entry = some offset → Sound g first s offset) (i : ℕ) (offset : ℤ)
    (hi : Function.update offsetTable clientId entry i = some offset) :
    Sound g first s offset := by
  by_cases heq : i = clientId
  · subst heq
    rw [Function.update_self] at hi
    exact hentry offset hi
  · rw [Function.update_of_ne heq] at hi
    exact h i offset hi

/-- A consumer starts from what the broker knew. -/
lemma GroupInv.newConsumer (h : GroupInv g first s) {offset : ℤ} (hoffset : Sound g first s offset)
    (clientId : ℕ) : GroupInv g first { s with
      consumers := s.consumers ++ [newConsumer clientId offset offset] } := by
  have hl : Later s { s with
      consumers := s.consumers ++ [GroupProgress.newConsumer clientId offset offset] } :=
    later_of_consumers (by simp [System.finished])
  refine ⟨h.queue, fun c hc => ?_, fun i offset ho => (h.offsetTable i offset ho).later hl,
    fun offset ho => (h.commits offset ho).later hl, fun x hx => (h.answers x hx).later hl,
    h.brokerOffset.later hl, h.persisted.later hl⟩
  rcases List.mem_append.mp hc with hold | hnew
  · exact (h.consumers c hold).later hl
  · obtain rfl := List.mem_singleton.mp hnew
    have hinv := inv_forget (ConcurrentConsume.inv_new (some offset) 0)
    refine ⟨hinv, hoffset.later hl, le_rfl, hoffset.le, fun m _ _ hstart hlt => ?_,
      fun offset' ho => ?_⟩
    · exact absurd hlt (not_lt.mpr hstart)
    · rcases ho with ⟨r, hr, -⟩ | hstage
      · cases hr
      · cases hstage

lemma GroupInv.newProcessQueue (h : GroupInv g first s) {j : ℕ} {clientId : ℕ} {lastOffset : ℤ}
    (hj : s.answers[j]? = some (clientId, lastOffset))
    (hs : s.step g (.newProcessQueue j) = some s') : GroupInv g first s' := by
  have hsound := h.answers _ (List.mem_of_getElem? hj)
  have hentry : ∀ offset, some lastOffset = some offset → Sound g first s offset := by
    rintro offset ⟨⟩
    exact hsound
  have htable : ∀ i offset,
      Function.update s.offsetTable clientId (some lastOffset) i = some offset →
        Sound g first s offset := sound_update h.offsetTable hentry
  have hcarried := h.carry htable h.commits
    (fun x hx => h.answers x (List.mem_of_mem_eraseIdx (i := j) hx)) h.brokerOffset h.persisted
  have hplace : PullFromWhere.computePullFromWhere (g.settings clientId) g.admin g.mq lastOffset =
      some lastOffset := computePullFromWhere_of_nonneg hsound.nonneg
  simp only [System.step, hj, Option.bind_some, hplace, Option.map_some, if_pos hsound.nonneg,
    Option.some.injEq] at hs
  subst hs
  exact hcarried.newConsumer (hsound.later (later_of_consumers (List.Subset.refl _))) clientId

/-- **One step.** -/
lemma inv_step {a : Action} (h : GroupInv g first s) (hs : s.step g a = some s') :
    GroupInv g first s' := by
  cases a with
  | putMessage m =>
    cases hs
    exact h.putMessage m
  | pull i nextBeginOffset found =>
    obtain ⟨c, hi, hs⟩ := Option.bind_eq_some_iff.mp hs
    obtain ⟨⟨hnext, hle⟩, hs⟩ := Option.ite_none_right_eq_some.mp hs
    have hfound : ∀ m ∈ s.queue, g.matched m → c.state.nextOffset ≤ m.queueOffset →
        m.queueOffset < nextBeginOffset →
        m ∈ s.getMessage g c.state.nextOffset nextBeginOffset :=
      fun m hm hmatched ha hb => mem_getMessage h.queue hm hmatched ha hb
    dsimp only at hs
    split_ifs at hs with hstatus hempty
    · obtain ⟨state, hstate, rfl⟩ := Option.map_eq_some_iff.mp hs
      exact h.move hi hstate (moves_found hstate) hnext hle
        fun m hm hmatched ha hb => List.mem_map_of_mem (hfound m hm hmatched ha hb)
    · obtain ⟨state, hstate, rfl⟩ := Option.map_eq_some_iff.mp hs
      rw [List.isEmpty_iff] at hempty
      refine h.move hi hstate (moves_noNewMsg hstate) hnext hle ?_
      intro m hm hmatched ha hb
      have hmem := hfound m hm hmatched ha hb
      rw [hempty] at hmem
      cases hmem
  | consume i a =>
    obtain ⟨c, hi, hs⟩ := Option.bind_eq_some_iff.mp hs
    obtain ⟨hpull, hs⟩ := Option.ite_none_left_eq_some.mp hs
    obtain ⟨state, hstate, rfl⟩ := Option.map_eq_some_iff.mp hs
    have hle := (h.consumers c (List.mem_of_getElem? hi)).le
    exact h.move hi hstate (moves_step (Bool.eq_false_of_not_eq_true hpull) hstate) le_rfl hle
      fun m _ _ hge hlt => absurd hlt (not_lt.mpr hge)
  | persist clientId =>
    obtain ⟨offset, hoffset, rfl⟩ := Option.map_eq_some_iff.mp hs
    refine h.carry h.offsetTable (fun o ho => ?_) h.answers h.brokerOffset h.persisted
    rcases List.mem_append.mp ho with hold | hnew
    · exact h.commits o hold
    · obtain rfl := List.mem_singleton.mp hnew
      exact h.offsetTable clientId o hoffset
  | removeOffset clientId =>
    cases hs
    exact h.carry (sound_update h.offsetTable fun _ ho => nomatch ho) h.commits h.answers
      h.brokerOffset h.persisted
  | commitOffset j =>
    obtain ⟨offset, hoffset, rfl⟩ := Option.map_eq_some_iff.mp hs
    exact h.carry h.offsetTable (fun o ho => h.commits o (List.mem_of_mem_eraseIdx ho)) h.answers
      (h.commits offset (List.mem_of_getElem? hoffset)) h.persisted
  | loseCommit j =>
    obtain ⟨-, rfl⟩ := Option.ite_none_right_eq_some.mp hs |>.imp_right Option.some.inj
    exact h.carry h.offsetTable (fun o ho => h.commits o (List.mem_of_mem_eraseIdx ho)) h.answers
      h.brokerOffset h.persisted
  | queryOffset clientId =>
    cases hs
    refine h.carry h.offsetTable h.commits (fun x hx => ?_) h.brokerOffset h.persisted
    rcases List.mem_append.mp hx with hold | hnew
    · exact h.answers x hold
    · obtain rfl := List.mem_singleton.mp hnew
      exact h.brokerOffset
  | newProcessQueue j =>
    obtain ⟨x, hj, -⟩ := Option.bind_eq_some_iff.mp hs
    exact h.newProcessQueue hj hs
  | persistBroker =>
    cases hs
    exact h.carry h.offsetTable h.commits h.answers h.brokerOffset h.brokerOffset
  | restartBroker =>
    cases hs
    exact h.carry h.offsetTable h.commits h.answers h.persisted h.persisted

end Invariant

/-- **At least once, whoever has the queue.** A group that has come to an offset misses no message
from there on, however the queue goes between its consumers, whatever they have begun, and
however late, out of order or not at all the broker hears of their progress. -/
theorem nothing_lost {g : Group} {msgs : List MessageExt} {offset : ℕ} {as : List Action}
    {s : System} (h : offset ≤ msgs.length)
    (hr : run (System.step g) (newSystem msgs offset) as = some s) : NothingLost g offset s :=
  (run_inductive (fun _ _ _ hs hstep => inv_step hs hstep) (inv_new h) hr).nothingLost

def testGroup : Group where
  mq := ⟨"T".toList, "b".toList, 0⟩
  matched _ := true
  settings _ := ⟨.CONSUME_FROM_LAST_OFFSET, none⟩
  admin := ⟨fun _ => none, fun _ _ => none⟩

/-- The queue goes to a second client before the broker hears of the progress of the first. -/
def handOver : List Action :=
  [.queryOffset 0, .newProcessQueue 0, .pull 0 2 true, .consume 0 (.submitConsumeRequest 10),
    .consume 0 (.consumeMessage 0 .CONSUME_SUCCESS 1), .consume 0 (.submitConsumeRequestLater 0),
    .consume 0 (.removeMessage 0), .consume 0 (.updateOffset 0), .persist 0, .removeOffset 0,
    .queryOffset 1, .newProcessQueue 0, .commitOffset 0, .pull 1 3 true]

theorem nothing_lost_handOver : ∃ s,
    run (System.step testGroup) (newSystem [⟨0, none⟩, ⟨0, none⟩, ⟨0, none⟩] 0) handOver = some s ∧
      s.brokerOffset = 2 ∧ s.finished = [0, 1] ∧ NothingLost testGroup 0 s := by
  have hr : run (System.step testGroup) (newSystem [⟨0, none⟩, ⟨0, none⟩, ⟨0, none⟩] 0) handOver =
      some _ := rfl
  exact ⟨_, hr, rfl, rfl, nothing_lost (by decide) hr⟩

end CloudMQ.GroupProgress
