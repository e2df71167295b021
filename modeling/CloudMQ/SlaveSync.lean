import CloudMQ.TopicManager
import CloudMQ.Runs

/-!
`SlaveSynchronize` and the tables a slave takes over from its master.

Topics and subscription groups are kept in the same way: a table, a version and a file. The slave
fetches both from the master, and if the versions differ it assigns the version, clears the table,
fills it and writes the file, one after the other. Heartbeats and pulls create entries of the
slave's own at the same time: the entry, a new version, the file. A crash keeps what the file says.
-/

namespace CloudMQ.SlaveSync

open CloudMQ.Utf8 CloudMQ.Tables CloudMQ.Topics CloudMQ.Runs

structure SubscriptionGroupConfig where
  consumeEnable : Bool := true
  consumeFromMinEnable : Bool := true
  consumeBroadcastEnable : Bool := true
  retryQueueNums : Int32 := 1
  retryMaxTimes : Int32 := 16
  brokerId : Int64 := 0
  whichBrokerWhenConsumeSlowly : Int64 := 1
deriving DecidableEq

/-! ### One kind of metadata -/

section Side

variable {V : Type}

/-- Where a synchronisation stands, with what it has fetched. -/
inductive Sync (V : Type)
  | idle
  | fetched (v : DataVersion) (table : Table Text V)
  | differs (v : DataVersion) (table : Table Text V)
  | assigned (v : DataVersion) (table : Table Text V)
  | cleared (v : DataVersion) (table : Table Text V)
  | filled

/-- Where the creation of an entry stands. -/
inductive Creation (V : Type)
  | checked (key : Text) (value : V)
  | put
  | bumped

def Sync.isOpen : Sync V → Bool
  | .assigned _ _ | .cleared _ _ => true
  | _ => false

def Creation.isPut : Creation V → Bool
  | .put => true
  | _ => false

/-- The file; `torn` if it was written while a synchronisation stood between the version and the
table, or a creation between the entry and its version. -/
structure Saved (V : Type) where
  dataVersion : DataVersion
  table : Table Text V
  torn : Bool

/-- The master, all its states so far, the slave, and the clock readings so far. -/
structure Side (V : Type) where
  master : DataVersion × Table Text V
  history : List (DataVersion × Table Text V)
  dataVersion : DataVersion
  table : Table Text V
  file : Option (Saved V)
  sync : Sync V
  creating : List (Creation V)
  readings : List Int64

def Side.torn (s : Side V) : Bool := s.sync.isOpen || s.creating.any Creation.isPut

inductive SideAction (V : Type)
  | masterChange (table : Table Text V) (now : Int64)
  | fetch
  | compare
  | assignNewOne
  | clear
  | putAll
  | persist
  | putEntry (i : ℕ)
  | nextVersion (i : ℕ) (now : Int64)
  | persistEntry (i : ℕ)

/-- The table with a new entry; an entry that has come in the meantime is overwritten or kept. -/
def putEntry (overwrite : Bool) (key : Text) (value : V) (table : Table Text V) : Table Text V :=
  if key ∈ table ∧ ¬ overwrite then table else table.insert key value

def Side.write (s : Side V) : Saved V := ⟨s.dataVersion, s.table, s.torn⟩

/-- An entry is looked for and not found. -/
def Side.check (key : Text) (value : V) (s : Side V) : Option (Side V) :=
  if key ∈ s.table then none else some { s with creating := s.creating ++ [.checked key value] }

def Side.step (overwrite : Bool) (s : Side V) : SideAction V → Option (Side V)
  | .masterChange table now =>
    let master := (s.master.1.nextVersion now, table)
    some { s with master := master, history := master :: s.history, readings := now :: s.readings }
  | .fetch =>
    match s.sync with
    | .idle => some { s with sync := .fetched s.master.1 s.master.2 }
    | _ => none
  | .compare =>
    match s.sync with
    | .fetched v table =>
      some { s with sync := if s.dataVersion = v then .idle else .differs v table }
    | _ => none
  | .assignNewOne =>
    match s.sync with
    | .differs v table => some { s with dataVersion := v, sync := .assigned v table }
    | _ => none
  | .clear =>
    match s.sync with
    | .assigned v table => some { s with table := ∅, sync := .cleared v table }
    | _ => none
  | .putAll =>
    match s.sync with
    | .cleared _ table => some { s with table := table ∪ s.table, sync := .filled }
    | _ => none
  | .persist =>
    match s.sync with
    | .filled => some { s with file := some s.write, sync := .idle }
    | _ => none
  | .putEntry i =>
    match s.creating[i]? with
    | some (.checked key value) =>
      some { s with
        table := SlaveSync.putEntry overwrite key value s.table
        creating := s.creating.set i .put }
    | _ => none
  | .nextVersion i now =>
    match s.creating[i]? with
    | some .put =>
      some { s with
        dataVersion := s.dataVersion.nextVersion now
        creating := s.creating.set i .bumped
        readings := now :: s.readings }
    | _ => none
  | .persistEntry i =>
    match s.creating[i]? with
    | some .bumped => some { s with file := some s.write, creating := s.creating.eraseIdx i }
    | _ => none

/-- The slave crashes and loads its file over the built-in entries. -/
def Side.crash (builtIn : Table Text V) (now : Int64) (s : Side V) : Side V :=
  { s with
    dataVersion := (s.file.map (·.dataVersion)).getD ⟨now, 0⟩
    table := (s.file.map (·.table)).getD ∅ ∪ builtIn
    sync := .idle
    creating := []
    readings := now :: s.readings }

/-- The clock does not show a time twice. -/
def Side.Clock (s : Side V) : SideAction V → Prop
  | .masterChange _ now | .nextVersion _ now => now ∉ s.readings
  | _ => True

/-- **The tables agree**, but for built-in entries. -/
def Agrees (builtIn table master : Table Text V) : Prop :=
  ∀ key, table.lookup key = master.lookup key ∨ (master.lookup key = none ∧ key ∈ builtIn)

/-- **Equal versions mean equal tables**, while nothing is under way. -/
def Side.InStep (builtIn : Table Text V) (s : Side V) : Prop :=
  s.sync = .idle → s.creating = [] → s.dataVersion = s.master.1 →
    Agrees builtIn s.table s.master.2

/-- A file that was torn has no version of the master. -/
def Side.Whole (s : Side V) : Prop :=
  ∀ f ∈ s.file, ∀ p ∈ s.history, p.1 = f.dataVersion → f.torn = false

/-! ### What is kept -/

/-- No state of the master has the version. -/
def Foreign (history : List (DataVersion × Table Text V)) (v : DataVersion) : Prop :=
  ∀ p ∈ history, p.1 ≠ v

/-- The table agrees with every state of the master that has the version. -/
def Matches (builtIn : Table Text V) (history : List (DataVersion × Table Text V))
    (v : DataVersion) (table : Table Text V) : Prop :=
  ∀ p ∈ history, p.1 = v → Agrees builtIn table p.2

/-- What is known of a synchronisation that is under way. -/
def Underway (s : Side V) : Sync V → Prop
  | .idle | .filled => True
  | .fetched v table | .differs v table => (v, table) ∈ s.history
  | .assigned v table =>
    (v, table) ∈ s.history ∧ (s.dataVersion = v ∨ Foreign s.history s.dataVersion)
  | .cleared v table => (v, table) ∈ s.history ∧
      (s.dataVersion = v ∧ (s.creating.any Creation.isPut = false → s.table = ∅) ∨
        Foreign s.history s.dataVersion)

/-- **What every step keeps.** -/
structure Side.Inv (builtIn : Table Text V) (s : Side V) : Prop where
  current : s.master ∈ s.history
  unique : ∀ p ∈ s.history, ∀ q ∈ s.history, p.1 = q.1 → p = q
  masterRead : ∀ p ∈ s.history, p.1.timestatmp ∈ s.readings
  versionRead : s.dataVersion.timestatmp ∈ s.readings
  fileRead : ∀ f ∈ s.file, f.dataVersion.timestatmp ∈ s.readings
  memory : s.torn = false → Matches builtIn s.history s.dataVersion s.table
  sync : Underway s s.sync
  file : ∀ f ∈ s.file, f.torn = false → Matches builtIn s.history f.dataVersion f.table

variable {builtIn : Table Text V} {s s' : Side V}

lemma foreign_of_fresh {history : List (DataVersion × Table Text V)} {readings : List Int64}
    {v : DataVersion} (hr : ∀ p ∈ history, p.1.timestatmp ∈ readings)
    (hv : v.timestatmp ∉ readings) : Foreign history v := by
  rintro p hp rfl
  exact hv (hr p hp)

lemma Foreign.matches {history : List (DataVersion × Table Text V)} {v : DataVersion}
    (h : Foreign history v) (table : Table Text V) : Matches builtIn history v table :=
  fun p hp heq => absurd heq (h p hp)

/-- A new state of the master has no version that the slave knows. -/
lemma Matches.cons {history : List (DataVersion × Table Text V)} {v : DataVersion}
    {table : Table Text V} (h : Matches builtIn history v table) {p : DataVersion × Table Text V}
    (hp : p.1 ≠ v) : Matches builtIn (p :: history) v table := by
  intro q hq heq
  rcases List.mem_cons.mp hq with rfl | hq
  · exact absurd heq hp
  · exact h q hq heq

lemma Foreign.cons {history : List (DataVersion × Table Text V)} {v : DataVersion}
    (h : Foreign history v) {p : DataVersion × Table Text V} (hp : p.1 ≠ v) :
    Foreign (p :: history) v := by
  intro q hq
  rcases List.mem_cons.mp hq with rfl | hq
  · exact hp
  · exact h q hq

/-- Loading a table over the built-in entries does no more than add some of these. -/
lemma Agrees.union {table master : Table Text V} (h : Agrees builtIn table master) :
    Agrees builtIn (table ∪ builtIn) master := by
  intro key
  by_cases hkey : key ∈ table
  · rw [AList.lookup_union_left hkey]
    exact h key
  · have hnone : table.lookup key = none := AList.lookup_eq_none.mpr hkey
    have hmaster : master.lookup key = none := by
      rcases h key with heq | ⟨heq, -⟩
      · rw [← heq, hnone]
      · exact heq
    rw [AList.lookup_union_right hkey, hmaster]
    cases hb : builtIn.lookup key with
    | none => exact Or.inl rfl
    | some v => exact Or.inr ⟨rfl, mem_iff_lookup.mpr ⟨v, hb⟩⟩

/-! ### Creations between the entry and its version -/

lemma any_isPut_set {creating : List (Creation V)} {i : ℕ} {c : Creation V}
    (hi : creating[i]? = some c) : (creating.set i .put).any Creation.isPut = true := by
  rw [List.any_eq_true]
  have hlt : i < creating.length := (List.getElem?_eq_some_iff.mp hi).1
  exact ⟨.put, List.mem_set hlt .put, rfl⟩

lemma any_isPut_eraseIdx {creating : List (Creation V)} {i : ℕ}
    (hi : creating[i]? = some .bumped) :
    (creating.eraseIdx i).any Creation.isPut = creating.any Creation.isPut := by
  induction creating generalizing i with
  | nil => simp at hi
  | cons c creating ih =>
    cases i with
    | zero =>
      obtain rfl : c = .bumped := by simpa using hi
      simp [Creation.isPut]
    | succ i =>
      rw [List.eraseIdx_cons_succ, List.any_cons, List.any_cons, ih (by simpa using hi)]

/-! ### Every step keeps it -/

lemma torn_eq_false : s.torn = false ↔
    s.sync.isOpen = false ∧ s.creating.any Creation.isPut = false := by
  rw [Side.torn, Bool.or_eq_false_iff]

lemma Side.Inv.masterChange (h : s.Inv builtIn) {table : Table Text V} {now : Int64}
    (hnow : now ∉ s.readings) :
    Side.Inv builtIn { s with
      master := (s.master.1.nextVersion now, table)
      history := (s.master.1.nextVersion now, table) :: s.history
      readings := now :: s.readings } := by
  have hne : ∀ v : DataVersion, v.timestatmp ∈ s.readings → s.master.1.nextVersion now ≠ v := by
    rintro v hv rfl
    exact hnow hv
  refine ⟨List.mem_cons_self, ?_, ?_, List.mem_cons_of_mem _ h.versionRead,
    fun f hf => List.mem_cons_of_mem _ (h.fileRead f hf), fun ht => ?_, ?_,
    fun f hf ht => (h.file f hf ht).cons (hne _ (h.fileRead f hf))⟩
  · intro p hp q hq heq
    rcases List.mem_cons.mp hp with rfl | hp <;> rcases List.mem_cons.mp hq with rfl | hq
    · rfl
    · exact absurd heq (hne _ (h.masterRead q hq))
    · exact absurd heq.symm (hne _ (h.masterRead p hp))
    · exact h.unique p hp q hq heq
  · intro p hp
    rcases List.mem_cons.mp hp with rfl | hp
    · exact List.mem_cons_self
    · exact List.mem_cons_of_mem _ (h.masterRead p hp)
  · exact (h.memory ht).cons (hne _ h.versionRead)
  · have hsync := h.sync
    change Underway _ s.sync
    generalize s.sync = sync at hsync
    cases sync with
    | idle => trivial
    | filled => trivial
    | fetched v table => exact List.mem_cons_of_mem _ hsync
    | differs v table => exact List.mem_cons_of_mem _ hsync
    | assigned v table =>
      exact ⟨List.mem_cons_of_mem _ hsync.1,
        hsync.2.imp_right fun hf => hf.cons (hne _ h.versionRead)⟩
    | cleared v table =>
      exact ⟨List.mem_cons_of_mem _ hsync.1,
        hsync.2.imp_right fun hf => hf.cons (hne _ h.versionRead)⟩

/-- A step of the synchronisation that leaves version, table and file alone. -/
lemma Side.Inv.setSync (h : s.Inv builtIn) {sync : Sync V} (hopen : sync.isOpen = s.sync.isOpen)
    (hsync : Underway s sync) : Side.Inv builtIn { s with sync := sync } := by
  refine ⟨h.current, h.unique, h.masterRead, h.versionRead, h.fileRead, fun ht => h.memory ?_, ?_,
    h.file⟩
  · rw [torn_eq_false] at ht ⊢
    exact ⟨hopen ▸ ht.1, ht.2⟩
  · cases sync <;> exact hsync

lemma Side.Inv.assignNewOne (h : s.Inv builtIn) {v : DataVersion} {table : Table Text V}
    (hs : s.sync = .differs v table) :
    Side.Inv builtIn { s with dataVersion := v, sync := .assigned v table } := by
  have hmem : Underway s (.differs v table) := by simpa only [hs] using h.sync
  refine ⟨h.current, h.unique, h.masterRead, h.masterRead _ hmem, h.fileRead, ?_,
    ⟨hmem, Or.inl rfl⟩, h.file⟩
  intro ht
  simp [torn_eq_false, Sync.isOpen] at ht

lemma Side.Inv.clear (h : s.Inv builtIn) {v : DataVersion} {table : Table Text V}
    (hs : s.sync = .assigned v table) :
    Side.Inv builtIn { s with table := ∅, sync := .cleared v table } := by
  obtain ⟨hmem, hv⟩ : Underway s (.assigned v table) := by simpa only [hs] using h.sync
  refine ⟨h.current, h.unique, h.masterRead, h.versionRead, h.fileRead, ?_,
    ⟨hmem, hv.imp_left fun heq => ⟨heq, fun _ => rfl⟩⟩, h.file⟩
  intro ht
  simp [torn_eq_false, Sync.isOpen] at ht

/-- The table is the fetched one, unless the version has changed since. -/
lemma Side.Inv.putAll (h : s.Inv builtIn) {v : DataVersion} {table : Table Text V}
    (hs : s.sync = .cleared v table) :
    Side.Inv builtIn { s with table := table ∪ s.table, sync := .filled } := by
  obtain ⟨hmem, hv⟩ : Underway s (.cleared v table) := by simpa only [hs] using h.sync
  refine ⟨h.current, h.unique, h.masterRead, h.versionRead, h.fileRead, fun ht => ?_, trivial,
    h.file⟩
  rcases hv with ⟨heq, hempty⟩ | hforeign
  · intro p hp hpv key
    obtain rfl : p = (v, table) := h.unique p hp _ hmem (hpv.trans heq)
    rw [hempty (torn_eq_false.mp ht).2, AList.union_empty]
    exact Or.inl rfl
  · exact hforeign.matches _

/-- What is written is what the slave holds. -/
lemma Side.Inv.write (h : s.Inv builtIn) : Side.Inv builtIn { s with file := some s.write } := by
  refine ⟨h.current, h.unique, h.masterRead, h.versionRead, ?_, h.memory, ?_, ?_⟩
  · rintro f hf
    obtain rfl : s.write = f := by simpa using hf
    exact h.versionRead
  · have hsync := h.sync
    change Underway _ s.sync
    generalize s.sync = sync at hsync
    cases sync <;> exact hsync
  · rintro f hf ht
    obtain rfl : s.write = f := by simpa using hf
    exact h.memory ht

/-- A step of a creation that leaves version, table and file alone. -/
lemma Side.Inv.setCreating (h : s.Inv builtIn) {creating : List (Creation V)}
    (hput : creating.any Creation.isPut = s.creating.any Creation.isPut) :
    Side.Inv builtIn { s with creating := creating } := by
  refine ⟨h.current, h.unique, h.masterRead, h.versionRead, h.fileRead, fun ht => h.memory ?_, ?_,
    h.file⟩
  · rw [torn_eq_false] at ht ⊢
    exact ⟨ht.1, hput ▸ ht.2⟩
  · have hsync := h.sync
    change Underway _ s.sync
    generalize s.sync = sync at hsync
    cases sync with
    | cleared v table =>
      exact ⟨hsync.1, hsync.2.imp_left fun hv => ⟨hv.1, fun ht => hv.2 (hput ▸ ht)⟩⟩
    | _ => exact hsync

/-- From here to the next version, table and version do not belong together. -/
lemma Side.Inv.putEntry (h : s.Inv builtIn) {i : ℕ} {c : Creation V} (hi : s.creating[i]? = some c)
    (table : Table Text V) :
    Side.Inv builtIn { s with table := table, creating := s.creating.set i .put } := by
  have hput := any_isPut_set hi
  refine ⟨h.current, h.unique, h.masterRead, h.versionRead, h.fileRead, ?_, ?_, h.file⟩
  · intro ht
    rw [torn_eq_false, hput] at ht
    exact absurd ht.2 (by decide)
  · have hsync := h.sync
    change Underway _ s.sync
    generalize s.sync = sync at hsync
    cases sync with
    | cleared v table =>
      refine ⟨hsync.1, hsync.2.imp_left fun hv => ⟨hv.1, fun ht => ?_⟩⟩
      rw [hput] at ht
      exact absurd ht (by decide)
    | _ => exact hsync

/-- A version of the slave's own is no version of the master. -/
lemma Side.Inv.nextVersion (h : s.Inv builtIn) {creating : List (Creation V)} {now : Int64}
    (hnow : now ∉ s.readings) :
    Side.Inv builtIn { s with
      dataVersion := s.dataVersion.nextVersion now
      creating := creating
      readings := now :: s.readings } := by
  have hforeign : Foreign s.history (s.dataVersion.nextVersion now) :=
    foreign_of_fresh h.masterRead hnow
  refine ⟨h.current, h.unique, fun p hp => List.mem_cons_of_mem _ (h.masterRead p hp),
    List.mem_cons_self, fun f hf => List.mem_cons_of_mem _ (h.fileRead f hf),
    fun _ => hforeign.matches _, ?_, h.file⟩
  have hsync := h.sync
  change Underway _ s.sync
  generalize s.sync = sync at hsync
  cases sync with
  | assigned v table => exact ⟨hsync.1, Or.inr hforeign⟩
  | cleared v table => exact ⟨hsync.1, Or.inr hforeign⟩
  | _ => exact hsync

/-- **A crash**, with a file that is whole. -/
lemma Side.Inv.crash (h : s.Inv builtIn) {now : Int64} (hnow : now ∉ s.readings)
    (hwhole : s.Whole) : (s.crash builtIn now).Inv builtIn := by
  refine ⟨h.current, h.unique, fun p hp => List.mem_cons_of_mem _ (h.masterRead p hp), ?_,
    fun f hf => List.mem_cons_of_mem _ (h.fileRead f hf), fun _ => ?_, trivial, h.file⟩
  · change _ ∈ now :: s.readings
    cases hf : s.file with
    | none => simp [Side.crash, hf]
    | some f => simpa [Side.crash, hf] using Or.inr (h.fileRead f hf)
  · cases hf : s.file with
    | none =>
      simp only [Side.crash, hf, Option.map_none, Option.getD_none]
      exact (foreign_of_fresh (v := ⟨now, 0⟩) h.masterRead hnow).matches _
    | some f =>
      simp only [Side.crash, hf, Option.map_some, Option.getD_some]
      intro p hp heq
      exact (h.file f hf (hwhole f hf p hp heq) p hp heq).union

lemma Side.Inv.check (h : s.Inv builtIn) {key : Text} {value : V}
    (hs : s.check key value = some s') : s'.Inv builtIn := by
  rw [Side.check, ite_eq_iff] at hs
  rcases hs with ⟨-, hs⟩ | ⟨-, hs⟩
  · simp at hs
  · obtain rfl := Option.some.inj hs
    exact h.setCreating (by simp [Creation.isPut])

/-- **A step of one side.** -/
theorem Side.Inv.step (h : s.Inv builtIn) {overwrite : Bool} {a : SideAction V} (hc : s.Clock a)
    (hs : s.step overwrite a = some s') : s'.Inv builtIn := by
  cases a with
  | masterChange table now =>
    obtain rfl := Option.some.inj hs
    exact h.masterChange hc
  | fetch =>
    simp only [Side.step] at hs
    split at hs
    · rename_i hsync
      obtain rfl := Option.some.inj hs
      exact h.setSync (by rw [hsync]; rfl) h.current
    · simp at hs
  | compare =>
    simp only [Side.step] at hs
    split at hs
    · rename_i v table hsync
      obtain rfl := Option.some.inj hs
      have hmem : Underway s (.fetched v table) := by simpa only [hsync] using h.sync
      split_ifs
      · exact h.setSync (by rw [hsync]; rfl) trivial
      · exact h.setSync (by rw [hsync]; rfl) hmem
    · simp at hs
  | assignNewOne =>
    simp only [Side.step] at hs
    split at hs
    · rename_i hsync
      obtain rfl := Option.some.inj hs
      exact h.assignNewOne hsync
    · simp at hs
  | clear =>
    simp only [Side.step] at hs
    split at hs
    · rename_i hsync
      obtain rfl := Option.some.inj hs
      exact h.clear hsync
    · simp at hs
  | putAll =>
    simp only [Side.step] at hs
    split at hs
    · rename_i hsync
      obtain rfl := Option.some.inj hs
      exact h.putAll hsync
    · simp at hs
  | persist =>
    simp only [Side.step] at hs
    split at hs
    · rename_i hsync
      obtain rfl := Option.some.inj hs
      exact h.write.setSync (by change _ = s.sync.isOpen; rw [hsync]; rfl) trivial
    · simp at hs
  | putEntry i =>
    simp only [Side.step] at hs
    split at hs
    · rename_i hi
      obtain rfl := Option.some.inj hs
      exact h.putEntry hi _
    · simp at hs
  | nextVersion i now =>
    simp only [Side.step] at hs
    split at hs
    · obtain rfl := Option.some.inj hs
      exact h.nextVersion hc
    · simp at hs
  | persistEntry i =>
    simp only [Side.step] at hs
    split at hs
    · rename_i hi
      obtain rfl := Option.some.inj hs
      exact h.write.setCreating (any_isPut_eraseIdx hi)
    · simp at hs

lemma Side.Inv.inStep (h : s.Inv builtIn) : s.InStep builtIn := by
  intro hsync hcreating hv
  refine h.memory ?_ s.master h.current hv.symm
  rw [torn_eq_false, hsync, hcreating]
  exact ⟨rfl, rfl⟩

/-- A slave that starts without a file, when its clock shows `now`. -/
def Side.start (builtIn : Table Text V) (master : DataVersion × Table Text V) (now : Int64) :
    Side V :=
  ⟨master, [master], ⟨now, 0⟩, builtIn, none, .idle, [], [now, master.1.timestatmp]⟩

lemma Side.inv_start (builtIn : Table Text V) {master : DataVersion × Table Text V} {now : Int64}
    (hnow : now ≠ master.1.timestatmp) : (Side.start builtIn master now).Inv builtIn := by
  have hread : ∀ p ∈ [master], p.1.timestatmp ∈ [now, master.1.timestatmp] := by simp
  refine ⟨List.mem_singleton_self _, ?_, hread, List.mem_cons_self, by simp [Side.start], ?_,
    trivial, by simp [Side.start]⟩
  · intro p hp q hq _
    rw [List.mem_singleton.mp hp, List.mem_singleton.mp hq]
  · intro _ p hp heq
    obtain rfl := List.mem_singleton.mp hp
    exact absurd (congrArg DataVersion.timestatmp heq).symm hnow

end Side

/-! ### The slave -/

structure Slave where
  topics : Side TopicConfig
  groups : Side SubscriptionGroupConfig

inductive Action
  | topics (a : SideAction TopicConfig)
  | groups (a : SideAction SubscriptionGroupConfig)
  | createTopicInSendMessageBackMethod (topic : Text)
      (clientDefaultTopicQueueNums perm topicSysFlag : Int32)
  | findSubscriptionGroupConfig (group : Text)
  | crash (topicsNow groupsNow : Int64)

variable (builtInTopics : TopicConfigTable) (builtInGroups : Table Text SubscriptionGroupConfig)

/-- Topics are put, and created under a lock; groups are put if absent. -/
def step (s : Slave) : Action → Option Slave
  | .topics a => (s.topics.step true a).map fun topics => { s with topics := topics }
  | .groups a => (s.groups.step false a).map fun groups => { s with groups := groups }
  | .createTopicInSendMessageBackMethod topic clientDefaultTopicQueueNums perm topicSysFlag =>
    if s.topics.creating.isEmpty then
      (s.topics.check topic
        { readQueueNums := clientDefaultTopicQueueNums
          writeQueueNums := clientDefaultTopicQueueNums
          perm := perm
          topicSysFlag := topicSysFlag }).map fun topics => { s with topics := topics }
    else none
  | .findSubscriptionGroupConfig group =>
    (s.groups.check group {}).map fun groups => { s with groups := groups }
  | .crash topicsNow groupsNow =>
    some ⟨s.topics.crash builtInTopics topicsNow, s.groups.crash builtInGroups groupsNow⟩

def Clock (s : Slave) : Action → Prop
  | .topics a => s.topics.Clock a
  | .groups a => s.groups.Clock a
  | .crash topicsNow groupsNow =>
    topicsNow ∉ s.topics.readings ∧ groupsNow ∉ s.groups.readings
  | _ => True

/-- A crash finds no file that was torn and has a version of the master. -/
def Whole (s : Slave) : Action → Prop
  | .crash _ _ => s.topics.Whole ∧ s.groups.Whole
  | _ => True

def start (topics : DataVersion × TopicConfigTable)
    (groups : DataVersion × Table Text SubscriptionGroupConfig) (topicsNow groupsNow : Int64) :
    Slave :=
  ⟨Side.start builtInTopics topics topicsNow, Side.start builtInGroups groups groupsNow⟩

def Inv (s : Slave) : Prop := s.topics.Inv builtInTopics ∧ s.groups.Inv builtInGroups

variable {builtInTopics builtInGroups}

lemma inv_step {s s' : Slave} {a : Action} (h : Inv builtInTopics builtInGroups s)
    (hok : Clock s a ∧ Whole s a) (hs : step builtInTopics builtInGroups s a = some s') :
    Inv builtInTopics builtInGroups s' := by
  obtain ⟨hclock, hwhole⟩ := hok
  cases a with
  | topics a =>
    obtain ⟨topics, hstep, rfl⟩ := Option.map_eq_some_iff.mp hs
    exact ⟨h.1.step hclock hstep, h.2⟩
  | groups a =>
    obtain ⟨groups, hstep, rfl⟩ := Option.map_eq_some_iff.mp hs
    exact ⟨h.1, h.2.step hclock hstep⟩
  | createTopicInSendMessageBackMethod topic nums perm flag =>
    simp only [step] at hs
    split_ifs at hs
    obtain ⟨topics, hcheck, rfl⟩ := Option.map_eq_some_iff.mp hs
    exact ⟨h.1.check hcheck, h.2⟩
  | findSubscriptionGroupConfig group =>
    obtain ⟨groups, hcheck, rfl⟩ := Option.map_eq_some_iff.mp hs
    exact ⟨h.1, h.2.check hcheck⟩
  | crash topicsNow groupsNow =>
    obtain rfl := Option.some.inj hs
    exact ⟨h.1.crash hclock.1 hwhole.1, h.2.crash hclock.2 hwhole.2⟩

/-- **Equal versions, equal tables.** In every run in which no crash finds a torn file with a
version of the master, topics and groups are those of the master whenever the versions are. -/
theorem slave_in_step (builtInTopics : TopicConfigTable)
    (builtInGroups : Table Text SubscriptionGroupConfig)
    (topics : DataVersion × TopicConfigTable)
    (groups : DataVersion × Table Text SubscriptionGroupConfig) (topicsNow groupsNow : Int64)
    (htopics : topicsNow ≠ topics.1.timestatmp) (hgroups : groupsNow ≠ groups.1.timestatmp)
    (as : List Action) (s : Slave)
    (hclock : Meets (step builtInTopics builtInGroups) Clock
      (start builtInTopics builtInGroups topics groups topicsNow groupsNow) as)
    (hwhole : Meets (step builtInTopics builtInGroups) Whole
      (start builtInTopics builtInGroups topics groups topicsNow groupsNow) as)
    (hr : run (step builtInTopics builtInGroups)
      (start builtInTopics builtInGroups topics groups topicsNow groupsNow) as = some s) :
    s.topics.InStep builtInTopics ∧ s.groups.InStep builtInGroups := by
  have h0 : Inv builtInTopics builtInGroups
      (start builtInTopics builtInGroups topics groups topicsNow groupsNow) :=
    ⟨Side.inv_start _ htopics, Side.inv_start _ hgroups⟩
  have hinv := run_invariant (fun _ _ _ => inv_step) h0 (hclock.and hwhole) hr
  exact ⟨hinv.1.inStep, hinv.2.inStep⟩

/-! ### A crash after the creation wrote the new version with the old table -/

instance {V : Type} (s : Side V) : (a : SideAction V) → Decidable (s.Clock a)
  | .masterChange _ now | .nextVersion _ now => inferInstanceAs (Decidable (now ∉ s.readings))
  | .fetch | .compare | .assignNewOne | .clear | .putAll | .persist | .putEntry _
  | .persistEntry _ => inferInstanceAs (Decidable True)

instance {V : Type} (s : Side V) : Decidable s.Whole :=
  inferInstanceAs (Decidable (∀ f ∈ s.file, ∀ p ∈ s.history, p.1 = f.dataVersion → f.torn = false))

instance (s : Slave) : (a : Action) → Decidable (Clock s a)
  | .topics a => inferInstanceAs (Decidable (s.topics.Clock a))
  | .groups a => inferInstanceAs (Decidable (s.groups.Clock a))
  | .crash _ _ => inferInstanceAs (Decidable (_ ∧ _))
  | .createTopicInSendMessageBackMethod _ _ _ _ | .findSubscriptionGroupConfig _ =>
    inferInstanceAs (Decidable True)

instance (s : Slave) : (a : Action) → Decidable (Whole s a)
  | .crash _ _ => inferInstanceAs (Decidable (_ ∧ _))
  | .topics _ | .groups _ | .createTopicInSendMessageBackMethod _ _ _ _
  | .findSubscriptionGroupConfig _ => inferInstanceAs (Decidable True)

def Sync.isIdle {V : Type} : Sync V → Bool
  | .idle => true
  | _ => false

/-- The master has one topic and no group. -/
def newSlave : Slave :=
  start ∅ ∅ (⟨1, 5⟩, (∅ : TopicConfigTable).insert "T".toList {}) (⟨1, 0⟩, ∅) 2 2

/-- A retry topic is created while the master's version is taken over. -/
def createdBetween : List Action :=
  [.createTopicInSendMessageBackMethod "R".toList 1 6 0, .topics (.putEntry 0),
    .topics (.nextVersion 0 3), .topics .fetch, .topics .compare, .topics .assignNewOne,
    .topics (.persistEntry 0), .crash 4 4]

theorem slave_in_step_created :
    Meets (step ∅ ∅) Clock newSlave createdBetween ∧
      ∃ s, run (step ∅ ∅) newSlave createdBetween = some s ∧ ¬ s.topics.InStep ∅ := by
  have hclock : checks (step ∅ ∅) (fun s a => decide (Clock s a)) newSlave createdBetween := by
    decide
  have hrun : (run (step ∅ ∅) newSlave createdBetween).map (fun s =>
      (s.topics.sync.isIdle, s.topics.creating.isEmpty,
        decide (s.topics.dataVersion = s.topics.master.1), s.topics.table.lookup "T".toList,
        s.topics.master.2.lookup "T".toList)) =
      some (true, true, true, none, some {}) := by
    decide
  refine ⟨meets_of_checks (fun _ _ h => of_decide_eq_true h) hclock, ?_⟩
  obtain ⟨s, hs, heq⟩ := Option.map_eq_some_iff.mp hrun
  simp only [Prod.mk.injEq, decide_eq_true_eq, List.isEmpty_iff] at heq
  obtain ⟨hsync, hcreating, hv, htable, hmaster⟩ := heq
  refine ⟨s, hs, fun hin => ?_⟩
  have hidle : s.topics.sync = .idle := by
    revert hsync
    cases s.topics.sync <;> simp [Sync.isIdle]
  rcases hin hidle hcreating hv "T".toList with h | ⟨h, -⟩
  · rw [htable, hmaster] at h
    simp at h
  · rw [hmaster] at h
    simp at h

/-- The slave takes the topics over, creates a group of its own and crashes. -/
def synchronised : List Action :=
  [.topics .fetch, .topics .compare, .topics .assignNewOne, .topics .clear, .topics .putAll,
    .topics .persist, .findSubscriptionGroupConfig "G".toList, .groups (.putEntry 0),
    .groups (.nextVersion 0 3), .groups (.persistEntry 0), .crash 4 4]

theorem slave_in_step_synchronised :
    ∃ s, run (step ∅ ∅) newSlave synchronised = some s ∧
      s.topics.dataVersion = s.topics.master.1 ∧ s.topics.InStep ∅ ∧ s.groups.InStep ∅ := by
  have hclock : checks (step ∅ ∅) (fun s a => decide (Clock s a)) newSlave synchronised := by
    decide
  have hwhole : checks (step ∅ ∅) (fun s a => decide (Whole s a)) newSlave synchronised := by
    decide
  have hrun : (run (step ∅ ∅) newSlave synchronised).map (fun s =>
      decide (s.topics.dataVersion = s.topics.master.1)) = some true := by
    decide
  obtain ⟨s, hs, heq⟩ := Option.map_eq_some_iff.mp hrun
  exact ⟨s, hs, of_decide_eq_true heq,
    slave_in_step ∅ ∅ _ _ 2 2 (by decide) (by decide) synchronised s
      (meets_of_checks (fun _ _ h => of_decide_eq_true h) hclock)
      (meets_of_checks (fun _ _ h => of_decide_eq_true h) hwhole) hs⟩

end CloudMQ.SlaveSync
