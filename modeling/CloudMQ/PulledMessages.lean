import CloudMQ.SortedMaps

/-!
The messages of one queue that a push consumer has pulled and not yet finished.

Pulled messages wait in `msgTreeMap` by their queue offsets. Concurrent consumption removes them
there; orderly consumption moves a batch to `msgTreeMapTemp` while it is consumed. Queue offsets
count the units of a consume queue, far below the range of their type.
-/

namespace CloudMQ.PulledMessages

open CloudMQ.SortedMaps

inductive MessageModel
  | BROADCASTING
  | CLUSTERING
deriving DecidableEq

/-- A pulled message, with the property that the pull result gave it. -/
structure MessageExt where
  queueOffset : ℤ
  maxOffset : Option ℤ := none
deriving DecidableEq

structure ProcessQueue where
  msgTreeMap : TreeMap ℤ MessageExt := ∅
  queueOffsetMax : ℤ := 0
  msgCount : ℤ := 0
  dropped : Bool := false
  consuming : Bool := false
  msgTreeMapTemp : TreeMap ℤ MessageExt := ∅
  msgAccCnt : ℤ := 0

def offsets (msgs : List MessageExt) : List ℤ := msgs.map (·.queueOffset)

/-- The entries that messages are put as. -/
def entries (msgs : List MessageExt) : List (ℤ × MessageExt) := msgs.map fun m => (m.queueOffset, m)

@[simp] lemma map_fst_entries (msgs : List MessageExt) :
    (entries msgs).map Prod.fst = offsets msgs := by
  rw [entries, offsets, List.map_map]
  rfl

@[simp] lemma length_entries (msgs : List MessageExt) : (entries msgs).length = msgs.length :=
  List.length_map _

namespace ProcessQueue

variable (q : ProcessQueue)

/-! ### Pulled messages -/

/-- A turn of the loop over the pulled messages, with `validMsgCnt`. -/
def putOne (r : ProcessQueue × ℤ) (msg : MessageExt) : ProcessQueue × ℤ :=
  let q := { r.1 with msgTreeMap := r.1.msgTreeMap.put msg.queueOffset msg }
  if msg.queueOffset ∈ r.1.msgTreeMap then (q, r.2)
  else ({ q with queueOffsetMax := msg.queueOffset }, r.2 + 1)

/-- The messages that the broker holds behind the last one. -/
def accTotal (msgs : List MessageExt) : Option ℤ := do
  let messageExt ← msgs.getLast?
  let maxOffset ← messageExt.maxOffset
  let accTotal := maxOffset - messageExt.queueOffset
  if 0 < accTotal then some accTotal else none

/-- The queue, and whether a consume request is due. -/
def putMessage (msgs : List MessageExt) : ProcessQueue × Bool :=
  let r := msgs.foldl putOne (q, 0)
  let dispatchToConsume := decide (r.1.msgTreeMap.size ≠ 0) && !r.1.consuming
  ({ r.1 with
      msgCount := r.1.msgCount + r.2
      consuming := r.1.consuming || dispatchToConsume
      msgAccCnt := (accTotal msgs).getD r.1.msgAccCnt },
    dispatchToConsume)

/-! ### Concurrent consumption -/

/-- A turn of the loop over the finished messages, with `removedCnt`. -/
def removeOne (r : TreeMap ℤ MessageExt × ℤ) (msg : MessageExt) : TreeMap ℤ MessageExt × ℤ :=
  (r.1.remove msg.queueOffset, if msg.queueOffset ∈ r.1 then r.2 - 1 else r.2)

/-- The queue, and the offset up to which everything is finished. -/
def removeMessage (msgs : List MessageExt) : ProcessQueue × ℤ :=
  if q.msgTreeMap.size = 0 then (q, -1)
  else
    let r := msgs.foldl removeOne (q.msgTreeMap, 0)
    ({ q with msgTreeMap := r.1, msgCount := q.msgCount + r.2 },
      r.1.firstKey.getD (q.queueOffsetMax + 1))

/-! ### Orderly consumption -/

def rollback : ProcessQueue :=
  { q with msgTreeMap := q.msgTreeMap.putAll q.msgTreeMapTemp.entries, msgTreeMapTemp := ∅ }

/-- The offset behind the messages taken; `lastKey` throws on an empty map. -/
def commit : Option (ProcessQueue × ℤ) :=
  q.msgTreeMapTemp.lastKey.map fun offset =>
    ({ q with msgCount := q.msgCount + q.msgTreeMapTemp.size * -1, msgTreeMapTemp := ∅ },
      offset + 1)

def consumeAgain (q : ProcessQueue) (msg : MessageExt) : ProcessQueue :=
  { q with
    msgTreeMapTemp := q.msgTreeMapTemp.remove msg.queueOffset
    msgTreeMap := q.msgTreeMap.put msg.queueOffset msg }

def makeMessageToCosumeAgain (msgs : List MessageExt) : ProcessQueue := msgs.foldl consumeAgain q

def pollMessags : ℕ → ProcessQueue → List MessageExt × ProcessQueue
  | 0, q => ([], q)
  | i + 1, q =>
    match q.msgTreeMap.pollFirstEntry with
    | none => ([], q)
    | some (entry, rest) =>
      let r := pollMessags i { q with
        msgTreeMap := rest
        msgTreeMapTemp := q.msgTreeMapTemp.put entry.1 entry.2 }
      (entry.2 :: r.1, r.2)

def takeMessags (batchSize : ℕ) : List MessageExt × ProcessQueue :=
  let r := if q.msgTreeMap.size ≠ 0 then pollMessags batchSize q else ([], q)
  (r.1, if r.1.isEmpty then { r.2 with consuming := false } else r.2)

def clear : ProcessQueue :=
  { q with msgTreeMap := ∅, msgTreeMapTemp := ∅, msgCount := 0, queueOffsetMax := 0 }

def setDropped (dropped : Bool) : ProcessQueue := { q with dropped := dropped }

/-! ### What the operations do -/

variable {q}

lemma putOne_fold (msgs : List MessageExt) (r : ProcessQueue × ℤ) :
    (msgs.foldl putOne r).1.msgTreeMap = r.1.msgTreeMap.putAll (entries msgs) ∧
      (msgs.foldl putOne r).2 + r.1.msgTreeMap.size =
        r.2 + (msgs.foldl putOne r).1.msgTreeMap.size ∧
      (msgs.foldl putOne r).1.msgCount = r.1.msgCount ∧
      (msgs.foldl putOne r).1.msgTreeMapTemp = r.1.msgTreeMapTemp ∧
      (msgs.foldl putOne r).1.dropped = r.1.dropped := by
  induction msgs generalizing r with
  | nil => exact ⟨rfl, rfl, rfl, rfl, rfl⟩
  | cons msg msgs ih =>
    obtain ⟨htree, hcount, hmsg, htemp, hdropped⟩ := ih (putOne r msg)
    rw [List.foldl_cons, htree, hmsg, htemp, hdropped]
    rw [htree] at hcount
    by_cases hmem : msg.queueOffset ∈ r.1.msgTreeMap
    · have hsize := TreeMap.size_put_of_mem (v := msg) hmem
      simp only [putOne, if_pos hmem] at hcount ⊢
      refine ⟨rfl, ?_, trivial, trivial, trivial⟩
      omega
    · have hsize := TreeMap.size_put_of_not_mem (v := msg) hmem
      simp only [putOne, if_neg hmem] at hcount ⊢
      refine ⟨rfl, ?_, trivial, trivial, trivial⟩
      omega

@[simp] lemma msgTreeMap_putMessage (msgs : List MessageExt) :
    (q.putMessage msgs).1.msgTreeMap = q.msgTreeMap.putAll (entries msgs) :=
  (putOne_fold msgs (q, 0)).1

@[simp] lemma msgTreeMapTemp_putMessage (msgs : List MessageExt) :
    (q.putMessage msgs).1.msgTreeMapTemp = q.msgTreeMapTemp :=
  (putOne_fold msgs (q, 0)).2.2.2.1

lemma consuming_fold (msgs : List MessageExt) (r : ProcessQueue × ℤ) :
    (msgs.foldl putOne r).1.consuming = r.1.consuming := by
  induction msgs generalizing r with
  | nil => rfl
  | cons msg msgs ih =>
    rw [List.foldl_cons, ih, putOne]
    dsimp only
    split <;> rfl

/-- The mark is set when there are messages, and that it was set now is the answer. -/
lemma putMessage_consuming (msgs : List MessageExt) :
    (q.putMessage msgs).1.consuming = (q.consuming || (q.putMessage msgs).2) ∧
      ((q.putMessage msgs).2 = true ↔
        (q.putMessage msgs).1.msgTreeMap.size ≠ 0 ∧ q.consuming = false) := by
  have hfold : (msgs.foldl putOne (q, 0)).1.consuming = q.consuming := consuming_fold msgs (q, 0)
  rw [putMessage]
  dsimp only
  rw [hfold]
  exact ⟨rfl, by simp⟩

/-- The counter grows with the map. -/
lemma msgCount_putMessage (msgs : List MessageExt) :
    (q.putMessage msgs).1.msgCount =
      q.msgCount + ((q.putMessage msgs).1.msgTreeMap.size - q.msgTreeMap.size) := by
  obtain ⟨-, hcount, hmsg, -⟩ := putOne_fold msgs (q, 0)
  simp only [putMessage, hmsg] at hcount ⊢
  omega

lemma mem_putMessage {msgs : List MessageExt} {k : ℤ} :
    k ∈ (q.putMessage msgs).1.msgTreeMap ↔ k ∈ offsets msgs ∨ k ∈ q.msgTreeMap := by
  rw [msgTreeMap_putMessage, TreeMap.mem_putAll, map_fst_entries]

lemma queueOffsetMax_fold (msgs : List MessageExt) (r : ProcessQueue × ℤ) :
    (msgs.foldl putOne r).1.queueOffsetMax = r.1.queueOffsetMax ∨
      (msgs.foldl putOne r).1.queueOffsetMax ∈ offsets msgs := by
  induction msgs generalizing r with
  | nil => exact .inl rfl
  | cons msg msgs ih =>
    rw [List.foldl_cons]
    rcases ih (putOne r msg) with hsame | hmem
    · rw [hsame]
      by_cases hmem : msg.queueOffset ∈ r.1.msgTreeMap
      · simp only [putOne, if_pos hmem]
        exact .inl trivial
      · simp only [putOne, if_neg hmem]
        exact .inr List.mem_cons_self
    · exact .inr (List.mem_cons_of_mem _ hmem)

/-- A new message moves the largest offset to one of its batch. -/
lemma queueOffsetMax_putMessage {msg : MessageExt} {msgs : List MessageExt}
    (hnew : msg.queueOffset ∉ q.msgTreeMap) :
    (q.putMessage (msg :: msgs)).1.queueOffsetMax ∈ offsets (msg :: msgs) := by
  have hfold := queueOffsetMax_fold msgs (putOne (q, 0) msg)
  have hput : (putOne (q, 0) msg).1.queueOffsetMax = msg.queueOffset := by
    simp only [putOne, if_neg hnew]
  rw [hput] at hfold
  rcases hfold with hsame | hmem
  · exact List.mem_cons.mpr (.inl hsame)
  · exact List.mem_cons_of_mem _ hmem

lemma removeOne_fold (msgs : List MessageExt) (r : TreeMap ℤ MessageExt × ℤ) :
    (msgs.foldl removeOne r).1 = r.1.removeAll (offsets msgs) ∧
      (msgs.foldl removeOne r).2 + r.1.size = r.2 + (msgs.foldl removeOne r).1.size := by
  induction msgs generalizing r with
  | nil => exact ⟨rfl, rfl⟩
  | cons msg msgs ih =>
    obtain ⟨htree, hcount⟩ := ih (removeOne r msg)
    refine ⟨htree, ?_⟩
    rw [List.foldl_cons]
    by_cases hmem : msg.queueOffset ∈ r.1
    · have hsize := TreeMap.size_remove_of_mem hmem
      simp only [removeOne, if_pos hmem] at hcount ⊢
      omega
    · have hsize := TreeMap.size_remove_of_not_mem hmem
      simp only [removeOne, if_neg hmem] at hcount ⊢
      omega

@[simp] lemma queueOffsetMax_removeMessage (msgs : List MessageExt) :
    (q.removeMessage msgs).1.queueOffsetMax = q.queueOffsetMax := by
  rw [removeMessage]
  split <;> rfl

lemma mem_removeMessage {msgs : List MessageExt} {k : ℤ} :
    k ∈ (q.removeMessage msgs).1.msgTreeMap ↔ k ∉ offsets msgs ∧ k ∈ q.msgTreeMap := by
  rw [removeMessage]
  split
  · rename_i hsize
    have hempty := TreeMap.size_eq_zero.mp hsize k
    exact iff_of_false hempty fun h => hempty h.2
  · dsimp only
    rw [(removeOne_fold msgs (q.msgTreeMap, 0)).1]
    exact TreeMap.mem_removeAll

/-- The counter shrinks with the map. -/
lemma msgCount_removeMessage (msgs : List MessageExt) :
    (q.removeMessage msgs).1.msgCount =
      q.msgCount + ((q.removeMessage msgs).1.msgTreeMap.size - q.msgTreeMap.size) := by
  have hcount := (removeOne_fold msgs (q.msgTreeMap, 0)).2
  rw [removeMessage]
  split
  · dsimp only
    omega
  · dsimp only at hcount ⊢
    omega

/-- An offset comes from a map that was not empty; it is not behind any message that is left, and
is that of a message or follows the largest one. -/
lemma removeMessage_offset {msgs : List MessageExt} (h : 0 ≤ (q.removeMessage msgs).2) :
    q.msgTreeMap.size ≠ 0 ∧
      (∀ k ∈ (q.removeMessage msgs).1.msgTreeMap, (q.removeMessage msgs).2 ≤ k) ∧
      ((q.removeMessage msgs).2 ∈ q.msgTreeMap ∨
        (q.removeMessage msgs).2 = q.queueOffsetMax + 1) := by
  have hmem : ∀ k, k ∈ (q.removeMessage msgs).1.msgTreeMap → k ∈ q.msgTreeMap :=
    fun k hk => (mem_removeMessage.mp hk).2
  rw [removeMessage] at h hmem ⊢
  split at h
  · omega
  · rename_i hsize
    rw [if_neg hsize] at hmem ⊢
    dsimp only at h hmem ⊢
    refine ⟨hsize, ?_⟩
    cases hfirst : (msgs.foldl removeOne (q.msgTreeMap, 0)).1.firstKey with
    | none =>
      have hempty := TreeMap.size_eq_zero.mp (TreeMap.firstKey_eq_none.mp hfirst)
      exact ⟨fun k hk => absurd hk (hempty k), .inr rfl⟩
    | some first =>
      refine ⟨fun k hk => TreeMap.firstKey_le hfirst hk, .inl ?_⟩
      exact hmem first (TreeMap.firstKey_mem hfirst)

lemma pollMessags_spec (i : ℕ) (q : ProcessQueue) :
    ∃ taken, q.msgTreeMap.entries = taken ++ (pollMessags i q).2.msgTreeMap.entries ∧
      (pollMessags i q).1 = taken.map Prod.snd ∧
      (pollMessags i q).2.msgTreeMapTemp = q.msgTreeMapTemp.putAll taken ∧
      (pollMessags i q).2.msgCount = q.msgCount ∧ (pollMessags i q).2.dropped = q.dropped := by
  induction i generalizing q with
  | zero => exact ⟨[], rfl, rfl, rfl, rfl, rfl⟩
  | succ i ih =>
    rw [pollMessags]
    cases hpoll : q.msgTreeMap.pollFirstEntry with
    | none => exact ⟨[], rfl, rfl, rfl, rfl, rfl⟩
    | some e =>
      obtain ⟨taken, htree, hmsgs, htemp, hcount, hdropped⟩ := ih { q with
        msgTreeMap := e.2, msgTreeMapTemp := q.msgTreeMapTemp.put e.1.1 e.1.2 }
      refine ⟨e.1 :: taken, ?_, ?_, htemp, hcount, hdropped⟩
      · rw [TreeMap.pollFirstEntry_eq_some hpoll, List.cons_append, List.cons.injEq]
        exact ⟨rfl, htree⟩
      · rw [List.map_cons, ← hmsgs]

lemma consuming_pollMessags (i : ℕ) (q : ProcessQueue) :
    (pollMessags i q).2.consuming = q.consuming := by
  induction i generalizing q with
  | zero => rfl
  | succ i ih =>
    rw [pollMessags]
    cases q.msgTreeMap.pollFirstEntry with
    | none => rfl
    | some e => exact ih _

lemma pollMessags_nil {i : ℕ} {q : ProcessQueue} (h : (pollMessags (i + 1) q).1 = []) :
    q.msgTreeMap.size = 0 := by
  rw [pollMessags] at h
  cases hpoll : q.msgTreeMap.pollFirstEntry with
  | none => exact TreeMap.pollFirstEntry_eq_none hpoll
  | some e =>
    rw [hpoll] at h
    exact absurd h (List.cons_ne_nil _ _)

/-- An empty batch takes the mark back, and is taken from an empty map only. -/
lemma takeMessags_consuming {batchSize : ℕ} (hpos : 0 < batchSize) (q : ProcessQueue) :
    ((q.takeMessags batchSize).1 = [] ∧ q.msgTreeMap.size = 0 ∧
        (q.takeMessags batchSize).2.consuming = false) ∨
      ((q.takeMessags batchSize).1 ≠ [] ∧
        (q.takeMessags batchSize).2.consuming = q.consuming) := by
  obtain ⟨i, rfl⟩ := Nat.exists_eq_add_of_lt hpos
  rw [Nat.zero_add, takeMessags]
  by_cases hsize : q.msgTreeMap.size ≠ 0
  · simp only [if_pos hsize]
    have hne : (pollMessags (i + 1) q).1 ≠ [] := fun h => hsize (pollMessags_nil h)
    rw [if_neg (by simpa using hne)]
    exact .inr ⟨hne, consuming_pollMessags _ q⟩
  · simp only [if_neg hsize, List.isEmpty_nil, if_true]
    exact .inl ⟨trivial, not_not.mp hsize, trivial⟩

/-- A batch is a first part of the map. -/
lemma takeMessags_spec (batchSize : ℕ) (q : ProcessQueue) :
    ∃ taken, q.msgTreeMap.entries = taken ++ (q.takeMessags batchSize).2.msgTreeMap.entries ∧
      (q.takeMessags batchSize).1 = taken.map Prod.snd ∧
      (q.takeMessags batchSize).2.msgTreeMapTemp = q.msgTreeMapTemp.putAll taken ∧
      (q.takeMessags batchSize).2.msgCount = q.msgCount ∧
      (q.takeMessags batchSize).2.dropped = q.dropped := by
  have hspec : ∃ taken : List (ℤ × MessageExt), _ ∧ _ ∧ _ ∧ _ ∧ _ := pollMessags_spec batchSize q
  rw [takeMessags]
  by_cases hsize : q.msgTreeMap.size ≠ 0
  · simp only [if_pos hsize]
    obtain ⟨taken, htree, hmsgs, htemp, hcount, hdropped⟩ := hspec
    refine ⟨taken, ?_, hmsgs, ?_, ?_, ?_⟩
    all_goals split <;> assumption
  · simp only [if_neg hsize, List.isEmpty_nil, if_true]
    exact ⟨[], rfl, rfl, rfl, trivial, trivial⟩

/-- What a batch takes when messages are put by their offsets: they ascend, and come before the
others. -/
structure Front (q : ProcessQueue) (msgs : List MessageExt) (q' : ProcessQueue) : Prop where
  ascending : (offsets msgs).Pairwise (· < ·)
  before : ∀ k ∈ offsets msgs, ∀ k' ∈ q'.msgTreeMap, k < k'
  mem : ∀ k, k ∈ q.msgTreeMap ↔ k ∈ offsets msgs ∨ k ∈ q'.msgTreeMap
  memTemp : ∀ k, k ∈ q'.msgTreeMapTemp ↔ k ∈ offsets msgs ∨ k ∈ q.msgTreeMapTemp
  keyed : ∀ e ∈ q'.msgTreeMap.entries, e.2.queueOffset = e.1
  keyedTemp : (∀ e ∈ q.msgTreeMapTemp.entries, e.2.queueOffset = e.1) →
    ∀ e ∈ q'.msgTreeMapTemp.entries, e.2.queueOffset = e.1
  size : q.msgTreeMap.size = msgs.length + q'.msgTreeMap.size

lemma front_takeMessags {q : ProcessQueue}
    (hkeyed : ∀ e ∈ q.msgTreeMap.entries, e.2.queueOffset = e.1) (batchSize : ℕ) :
    Front q (q.takeMessags batchSize).1 (q.takeMessags batchSize).2 := by
  obtain ⟨taken, htree, hmsgs, htemp, -, -⟩ := takeMessags_spec batchSize q
  generalize q.takeMessags batchSize = r at *
  have hmem : ∀ e ∈ taken, e ∈ q.msgTreeMap.entries := fun e he => by
    rw [htree]
    exact List.mem_append_left _ he
  have hkeys : taken.map Prod.fst = offsets r.1 := by
    rw [hmsgs, offsets, List.map_map]
    exact List.map_congr_left fun e he => (hkeyed e (hmem e he)).symm
  have hasc := q.msgTreeMap.ascending
  rw [htree, List.pairwise_append] at hasc
  refine ⟨?_, fun k hk k' hk' => ?_, fun k => ?_, fun k => ?_, fun e he => ?_,
    fun hkeyedTemp e he => ?_, ?_⟩
  · rw [← hkeys, List.pairwise_map]
    exact hasc.1
  · rw [← hkeys] at hk
    obtain ⟨e, he, rfl⟩ := List.mem_map.mp hk
    obtain ⟨e', he', rfl⟩ := TreeMap.mem_iff.mp hk'
    exact hasc.2.2 e he e' he'
  · change k ∈ q.msgTreeMap.entries.map Prod.fst ↔ _
    rw [htree, List.map_append, List.mem_append, hkeys]
    rfl
  · rw [htemp, TreeMap.mem_putAll, hkeys]
  · refine hkeyed e ?_
    rw [htree]
    exact List.mem_append_right taken he
  · rw [htemp] at he
    rcases TreeMap.mem_entries_putAll he with he | he
    · exact hkeyed e (hmem e he)
    · exact hkeyedTemp e he
  · rw [TreeMap.size, htree, List.length_append, hmsgs, List.length_map]
    rfl

/-- The taken messages are counted still. -/
lemma size_takeMessags {q : ProcessQueue} (hapart : ∀ k ∈ q.msgTreeMapTemp, k ∉ q.msgTreeMap)
    (batchSize : ℕ) :
    (q.takeMessags batchSize).2.msgTreeMapTemp.size =
        q.msgTreeMapTemp.size + (q.takeMessags batchSize).1.length ∧
      (q.takeMessags batchSize).2.msgCount = q.msgCount := by
  obtain ⟨taken, htree, hmsgs, htemp, hcount, -⟩ := takeMessags_spec batchSize q
  refine ⟨?_, hcount⟩
  have hasc := q.msgTreeMap.ascending
  rw [htree, List.pairwise_append] at hasc
  have hnodup : (taken.map Prod.fst).Nodup := (List.pairwise_map.mpr hasc.1).imp ne_of_lt
  rw [htemp, TreeMap.size_putAll hnodup, hmsgs, List.length_map]
  intro e he hin
  refine hapart e.1 hin (TreeMap.mem_iff.mpr ⟨e, ?_, rfl⟩)
  rw [htree]
  exact List.mem_append_left _ he

lemma consuming_again (msgs : List MessageExt) (q : ProcessQueue) :
    (q.makeMessageToCosumeAgain msgs).consuming = q.consuming := by
  induction msgs generalizing q with
  | nil => rfl
  | cons msg msgs ih => exact ih (consumeAgain q msg)

lemma again_fold (msgs : List MessageExt) (q : ProcessQueue) :
    (q.makeMessageToCosumeAgain msgs).msgTreeMap = q.msgTreeMap.putAll (entries msgs) ∧
      (q.makeMessageToCosumeAgain msgs).msgTreeMapTemp =
        q.msgTreeMapTemp.removeAll (offsets msgs) ∧
      (q.makeMessageToCosumeAgain msgs).msgCount = q.msgCount ∧
      (q.makeMessageToCosumeAgain msgs).dropped = q.dropped := by
  induction msgs generalizing q with
  | nil => exact ⟨rfl, rfl, rfl, rfl⟩
  | cons msg msgs ih =>
    obtain ⟨htree, htemp, hcount, hdropped⟩ := ih (consumeAgain q msg)
    exact ⟨htree, htemp, hcount, hdropped⟩

end ProcessQueue

end CloudMQ.PulledMessages
