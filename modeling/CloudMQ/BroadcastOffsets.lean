import CloudMQ.PullFromWhere
import CloudMQ.Runs
import CloudMQ.Tables

/-!
The progress of a broadcasting consumer, in memory and in a local file.

Offsets are only compared, so they are integers. The file holds a table, written and read back by
the JSON library; every file is written as a whole, the one before it is kept as a backup.
-/

namespace CloudMQ.BroadcastOffsets

open CloudMQ.Tables CloudMQ.TopicRoutes CloudMQ.Runs CloudMQ.PullFromWhere

inductive ReadOffsetType | READ_FROM_MEMORY | READ_FROM_STORE | MEMORY_FIRST_THEN_STORE

abbrev OffsetTable := Table MessageQueue ℤ

structure LocalFileOffsetStore where
  offsetTable : OffsetTable := ∅
  file : Option OffsetTable := none
  bak : Option OffsetTable := none

namespace LocalFileOffsetStore

variable (s : LocalFileOffsetStore)

def readLocalOffset : Option OffsetTable := s.file.or s.bak

/-- What the file has for a queue. -/
def stored (mq : MessageQueue) : Option ℤ := s.readLocalOffset.bind fun t => t.lookup mq

/-- `putAll` of the table that is read. -/
def load : LocalFileOffsetStore :=
  match s.readLocalOffset with
  | none => s
  | some t => { s with offsetTable := t ∪ s.offsetTable }

def updateOffset (mq : MessageQueue) (offset : ℤ) (increaseOnly : Bool) : LocalFileOffsetStore :=
  { s with
    offsetTable := s.offsetTable.insert mq <|
      match s.offsetTable.lookup mq with
      | none => offset
      | some offsetOld => if increaseOnly then max offsetOld offset else offset }

def readStored (mq : MessageQueue) : ℤ × LocalFileOffsetStore :=
  match s.stored mq with
  | some offset => (offset, s.updateOffset mq offset false)
  | none => (-1, s)

def readOffset (mq : MessageQueue) : ReadOffsetType → ℤ × LocalFileOffsetStore
  | .READ_FROM_MEMORY => ((s.offsetTable.lookup mq).getD (-1), s)
  | .MEMORY_FIRST_THEN_STORE =>
    match s.offsetTable.lookup mq with
    | some offset => (offset, s)
    | none => s.readStored mq
  | .READ_FROM_STORE => s.readStored mq

/-- `MixAll.string2File`. -/
def string2File (t : OffsetTable) : LocalFileOffsetStore :=
  { s with bak := s.file.or s.bak, file := some t }

def persistAll (mqs : Finset MessageQueue) : LocalFileOffsetStore :=
  if mqs = ∅ then s
  else s.string2File (mapMaybe (fun mq offset => if mq ∈ mqs then some offset else none)
    s.offsetTable)

end LocalFileOffsetStore

/-! ### A consumer -/

/-- The store, and the largest offset of a queue that was written to the file. -/
structure State where
  store : LocalFileOffsetStore
  written : MessageQueue → Option ℤ

/-- A queue that is taken away has `persist` and `removeOffset` called for it, which do nothing; a
queue that is given is read from the file. A process that starts again loads the file. -/
inductive Action
  | updateOffset (mq : MessageQueue) (offset : ℤ)
  | persistConsumerOffset (processQueueTable : Finset MessageQueue)
  | readOffset (mq : MessageQueue) (type : ReadOffsetType)
  | restart

/-- An offset of a queue counts as written when `persistAll` puts it into the file. -/
def noteWritten (written : MessageQueue → Option ℤ) (store : LocalFileOffsetStore)
    (mqs : Finset MessageQueue) (mq : MessageQueue) : Option ℤ :=
  if mq ∈ mqs then
    match store.offsetTable.lookup mq with
    | none => written mq
    | some offset => some (((written mq).map (max offset)).getD offset)
  else written mq

def step (s : State) : Action → Option State
  | .updateOffset mq offset => some { s with store := s.store.updateOffset mq offset true }
  | .persistConsumerOffset mqs => some {
      store := s.store.persistAll mqs
      written := noteWritten s.written s.store mqs }
  | .readOffset mq type => some { s with store := (s.store.readOffset mq type).2 }
  | .restart => some { s with store := { s.store with offsetTable := ∅ }.load }

/-- A consumer that finds these files when it starts. -/
def started (file bak : Option OffsetTable) : State where
  store := { file, bak : LocalFileOffsetStore }.load
  written := fun _ => none

/-- An offset that was written is not behind what the file has, and a consumer that is given the
queue starts where the file says, whatever its settings. -/
def Remembered (s : State) : Prop :=
  ∀ mq o, s.written mq = some o → 0 ≤ o →
    o ≤ (s.store.readOffset mq .READ_FROM_STORE).1 ∧
    ∀ settings admin,
      computePullFromWhere settings admin mq (s.store.readOffset mq .READ_FROM_STORE).1 =
        some (s.store.readOffset mq .READ_FROM_STORE).1

/-- The file is written with every queue that an offset was written for, or not at all. -/
def KeepsQueues (s : State) : Action → Prop
  | .persistConsumerOffset mqs => mqs = ∅ ∨ ∀ mq o, s.written mq = some o → 0 ≤ o → mq ∈ mqs
  | _ => True

/-! ### The invariant -/

/-- The table in memory is not behind the file, and the file not behind what was written. -/
structure Inv (s : State) : Prop where
  memory : ∀ mq v, s.store.stored mq = some v → ∃ w, s.store.offsetTable.lookup mq = some w ∧ v ≤ w
  file : ∀ mq o, s.written mq = some o → 0 ≤ o → ∃ v, s.store.stored mq = some v ∧ o ≤ v

section

variable {s : State}

lemma readOffset_store {store : LocalFileOffsetStore} {mq : MessageQueue} :
    (store.readOffset mq .READ_FROM_STORE).1 = (store.stored mq).getD (-1) := by
  simp only [LocalFileOffsetStore.readOffset, LocalFileOffsetStore.readStored]
  cases store.stored mq <;> rfl

lemma Inv.remembered (h : Inv s) : Remembered s := by
  intro mq o hw ho
  obtain ⟨v, hv, hle⟩ := h.file mq o hw ho
  have hread : (s.store.readOffset mq .READ_FROM_STORE).1 = v := by
    rw [readOffset_store, hv, Option.getD_some]
  rw [hread]
  exact ⟨hle, fun _ _ => computePullFromWhere_of_nonneg (ho.trans hle)⟩

/-- A loaded table has what the file has. -/
lemma lookup_load (store : LocalFileOffsetStore) {mq : MessageQueue} {v : ℤ}
    (h : store.stored mq = some v) : store.load.offsetTable.lookup mq = some v := by
  obtain ⟨t, ht, hv⟩ := Option.bind_eq_some_iff.mp h
  rw [LocalFileOffsetStore.load, ht]
  dsimp only
  rw [AList.lookup_union_left (mem_iff_lookup.mpr ⟨v, hv⟩), hv]

@[simp] lemma stored_load (store : LocalFileOffsetStore) (mq : MessageQueue) :
    store.load.stored mq = store.stored mq := by
  rw [LocalFileOffsetStore.load]
  split <;> rfl

@[simp] lemma stored_updateOffset (store : LocalFileOffsetStore) (mq mq' : MessageQueue)
    (offset : ℤ) (increaseOnly : Bool) :
    (store.updateOffset mq' offset increaseOnly).stored mq = store.stored mq := rfl

lemma inv_started (file bak : Option OffsetTable) : Inv (started file bak) where
  memory := fun mq v hv => ⟨v, lookup_load _ ((stored_load _ mq).symm.trans hv), le_rfl⟩
  file := fun _ _ hw => by cases hw

lemma Inv.updateOffset (h : Inv s) (mq : MessageQueue) (offset : ℤ) :
    Inv { s with store := s.store.updateOffset mq offset true } := by
  refine ⟨fun mq' v hv => ?_, h.file⟩
  obtain ⟨w, hw, hle⟩ := h.memory mq' v hv
  dsimp only [LocalFileOffsetStore.updateOffset]
  rw [lookup_insert_ite]
  by_cases heq : mq' = mq
  · subst heq
    rw [if_pos rfl, hw]
    exact ⟨max w offset, rfl, hle.trans (le_max_left w offset)⟩
  · rw [if_neg heq]
    exact ⟨w, hw, hle⟩

/-- A read from the file sets the memory back to the file. -/
lemma Inv.readStored (h : Inv s) (mq : MessageQueue) :
    Inv { s with store := (s.store.readStored mq).2 } := by
  rw [LocalFileOffsetStore.readStored]
  split
  · rename_i offset hstored
    refine ⟨fun mq' v hv => ?_, h.file⟩
    dsimp only [LocalFileOffsetStore.updateOffset]
    rw [lookup_insert_ite]
    by_cases heq : mq' = mq
    · subst heq
      obtain rfl := Option.some.inj (hstored.symm.trans hv)
      rw [if_pos rfl]
      cases s.store.offsetTable.lookup mq' <;> exact ⟨_, rfl, le_rfl⟩
    · rw [if_neg heq]
      exact h.memory mq' v hv
  · exact h

lemma Inv.readOffset (h : Inv s) (mq : MessageQueue) (type : ReadOffsetType) :
    Inv { s with store := (s.store.readOffset mq type).2 } := by
  cases type with
  | READ_FROM_MEMORY => exact h
  | READ_FROM_STORE => exact h.readStored mq
  | MEMORY_FIRST_THEN_STORE =>
    rw [LocalFileOffsetStore.readOffset]
    split
    · exact h
    · exact h.readStored mq

/-- The file holds the queues of the table that are in memory. -/
lemma stored_persistAll {store : LocalFileOffsetStore} {mqs : Finset MessageQueue} (h : mqs ≠ ∅)
    (mq : MessageQueue) :
    (store.persistAll mqs).stored mq = if mq ∈ mqs then store.offsetTable.lookup mq else none := by
  rw [LocalFileOffsetStore.persistAll, if_neg h, LocalFileOffsetStore.string2File,
    LocalFileOffsetStore.stored, LocalFileOffsetStore.readLocalOffset, Option.some_or,
    Option.bind_some, lookup_mapMaybe]
  split_ifs with hmem
  · exact Option.bind_fun_some _
  · exact Option.bind_fun_none _

lemma offsetTable_persistAll (store : LocalFileOffsetStore) (mqs : Finset MessageQueue) :
    (store.persistAll mqs).offsetTable = store.offsetTable := by
  rw [LocalFileOffsetStore.persistAll]
  split_ifs <;> rfl

lemma noteWritten_empty (written : MessageQueue → Option ℤ) (store : LocalFileOffsetStore) :
    noteWritten written store ∅ = written :=
  funext fun _ => if_neg (Finset.notMem_empty _)

lemma Inv.persistAll (h : Inv s) {mqs : Finset MessageQueue}
    (hok : KeepsQueues s (.persistConsumerOffset mqs)) :
    Inv ⟨s.store.persistAll mqs, noteWritten s.written s.store mqs⟩ := by
  by_cases hempty : mqs = ∅
  · subst hempty
    rw [noteWritten_empty, LocalFileOffsetStore.persistAll, if_pos rfl]
    exact h
  have hkeeps := Or.resolve_left hok hempty
  constructor
  · intro mq v hv
    dsimp only at hv ⊢
    rw [stored_persistAll hempty] at hv
    rw [offsetTable_persistAll]
    split_ifs at hv
    exact ⟨v, hv, le_rfl⟩
  · intro mq o hw ho
    dsimp only [noteWritten] at hw ⊢
    rw [stored_persistAll hempty]
    by_cases hmem : mq ∈ mqs
    · rw [if_pos hmem] at hw ⊢
      cases hlookup : s.store.offsetTable.lookup mq with
      | none =>
        rw [hlookup] at hw
        obtain ⟨v, hv, -⟩ := h.file mq o hw ho
        obtain ⟨w, hw', -⟩ := h.memory mq v hv
        rw [hlookup] at hw'
        cases hw'
      | some offset =>
        rw [hlookup] at hw
        refine ⟨offset, rfl, ?_⟩
        obtain rfl := Option.some.inj hw
        cases hold : s.written mq with
        | none => exact le_rfl
        | some o' =>
          rw [hold, Option.map_some, Option.getD_some] at ho
          rw [Option.map_some, Option.getD_some]
          refine max_le le_rfl ?_
          rcases le_or_gt 0 o' with ho' | ho'
          · obtain ⟨v, hv, hle⟩ := h.file mq o' hold ho'
            obtain ⟨w, hw', hle'⟩ := h.memory mq v hv
            obtain rfl := Option.some.inj (hlookup.symm.trans hw')
            exact hle.trans hle'
          · exact (ho'.trans_le ((le_max_iff.mp ho).resolve_right (not_le.mpr ho'))).le
    · rw [if_neg hmem] at hw
      exact absurd (hkeeps mq o hw ho) hmem

theorem inv_step (s : State) (a : Action) (s' : State) (h : Inv s) (hok : KeepsQueues s a)
    (hs : step s a = some s') : Inv s' := by
  cases a with
  | updateOffset mq offset =>
    cases hs
    exact h.updateOffset mq offset
  | persistConsumerOffset mqs =>
    cases hs
    exact h.persistAll hok
  | readOffset mq type =>
    cases hs
    exact h.readOffset mq type
  | restart =>
    cases hs
    refine ⟨fun mq v hv => ⟨v, lookup_load _ ?_, le_rfl⟩, fun mq o hw ho => ?_⟩
    · rw [stored_load] at hv
      exact hv
    · dsimp only
      rw [stored_load]
      exact h.file mq o hw ho

/-- A file that is written without a queue forgets its offset. -/
lemma keepsQueues_of_remembered (s : State) (a : Action)
    (hP : ∀ s', step s a = some s' → Remembered s') : KeepsQueues s a := by
  cases a with
  | persistConsumerOffset mqs =>
    by_cases hempty : mqs = ∅
    · exact .inl hempty
    refine .inr fun mq o hw ho => ?_
    by_contra hmem
    have hafter : noteWritten s.written s.store mqs mq = some o := by
      rw [noteWritten, if_neg hmem, hw]
    have hle := (hP _ rfl mq o hafter ho).1
    rw [readOffset_store, stored_persistAll hempty, if_neg hmem, Option.getD_none] at hle
    omega
  | updateOffset mq offset => exact trivial
  | readOffset mq type => exact trivial
  | restart => exact trivial

end

/-- **Broadcast progress.** In every state of a run what was written is remembered, exactly when
the file is always written with every queue that an offset was written for. -/
theorem progress_remembered (file bak : Option OffsetTable) (as : List Action) :
    (∀ as', as' <+: as → ∀ s, run step (started file bak) as' = some s → Remembered s) ↔
      Meets step KeepsQueues (started file bak) as :=
  holds_along_iff inv_step (fun _ => Inv.remembered)
    (fun s a _ => keepsQueues_of_remembered s a) (inv_started file bak)

/-! ### A queue that is away -/

def brokerA : MessageQueue := ⟨['t'], ['a'], 0⟩

def brokerB : MessageQueue := ⟨['t'], ['b'], 0⟩

/-- A broker leaves the route while the other's progress is written. -/
def brokerAway : List Action :=
  [.updateOffset brokerA 5, .updateOffset brokerB 9, .persistConsumerOffset {brokerA, brokerB},
    .persistConsumerOffset {brokerA}]

/-- The state after a run. -/
def after (as : List Action) : State := (run step (started none none) as).getD (started none none)

theorem progress_forgotten : ¬∀ (file bak : Option OffsetTable) (as : List Action) (s : State),
    run step (started file bak) as = some s → Remembered s := by
  intro h
  have hle := (h none none brokerAway (after brokerAway) rfl brokerB 9 (by decide) (by decide)).1
  exact absurd hle (by decide)

end CloudMQ.BroadcastOffsets
