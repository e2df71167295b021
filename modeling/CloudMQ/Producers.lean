import CloudMQ.Lists
import CloudMQ.Runs
import CloudMQ.Strings
import CloudMQ.Tables

/-!
The connected producers, by group and by the hash of the group's name.

A transaction is checked with a producer that is picked by the hash. The second table has integers
for its keys, but most of its reads are with the name itself, which equals no integer.
-/

namespace CloudMQ.Producers

open CloudMQ.Utf8 CloudMQ.Strings CloudMQ.Tables CloudMQ.Runs

/-- A connection, by its identity. -/
abbrev Channel := ℕ

structure ClientChannelInfo where
  channel : Channel
  clientId : Text
  lastUpdateTimestamp : ℤ

def ChannelExpiredTimeout : ℤ := 1000 * 120

/-- An object that a map is asked for; a string and an integer are never equal. -/
inductive HashKey
  | ofInt (hash : Int32)
  | ofString (group : Text)
deriving DecidableEq

/-- The client objects by number, and the two tables with those numbers; the registrations, the
latest first. -/
structure ProducerManager where
  infos : List ClientChannelInfo := []
  groupChannelTable : Table Text (Table Channel ℕ) := ∅
  hashcodeChannelTable : Table HashKey (List ℕ) := ∅
  registrations : List (Text × ℕ) := []

namespace ProducerManager

variable (m : ProducerManager)

/-- `contains`: clients are equal when their channels are the same. -/
def contains (channelList : List ℕ) (info : ClientChannelInfo) : Bool :=
  channelList.any fun i => (m.infos[i]?).any (·.channel = info.channel)

/-- The part of a registration that is about groups. -/
def registerGroup (now : ℤ) (group : Text) (i : ℕ) (info : ClientChannelInfo) : ProducerManager :=
  let channelTable := (m.groupChannelTable.lookup group).getD ∅
  match channelTable.lookup info.channel with
  | none =>
    { m with groupChannelTable :=
        m.groupChannelTable.insert group (channelTable.insert info.channel i) }
  | some found =>
    { m with
      groupChannelTable := m.groupChannelTable.insert group channelTable
      infos := m.infos.modify found fun info => { info with lastUpdateTimestamp := now } }

/-- The part that is about hashes: the list is got by the name and put by the hash. -/
def registerHash (group : Text) (i : ℕ) (info : ClientChannelInfo) : ProducerManager :=
  match m.hashcodeChannelTable.lookup (.ofString group) with
  | some channelList =>
    if m.contains channelList info then m
    else { m with hashcodeChannelTable :=
        m.hashcodeChannelTable.insert (.ofString group) (channelList ++ [i]) }
  | none =>
    { m with hashcodeChannelTable :=
        m.hashcodeChannelTable.insert (.ofInt (hashCode group)) [i] }

def registerProducer (now : ℤ) (group : Text) (i : ℕ) (info : ClientChannelInfo) :
    ProducerManager :=
  let m := (m.registerGroup now group i info).registerHash group i info
  { m with registrations := (group, i) :: m.registrations }

def unregisterGroup (group : Text) (channel : Channel) : ProducerManager :=
  match m.groupChannelTable.lookup group with
  | some channelTable =>
    if channelTable = ∅ then m
    else
      let channelTable := channelTable.erase channel
      { m with groupChannelTable :=
          if channelTable = ∅ then m.groupChannelTable.erase group
          else m.groupChannelTable.insert group channelTable }
  | none => m

/-- A list that is there is asked to remove the channel, which equals none of its clients, so that
it does not become empty. -/
def unregisterHash (group : Text) : ProducerManager :=
  match m.hashcodeChannelTable.lookup (.ofString group) with
  | some _ => m
  | none => m

def unregisterProducer (group : Text) (info : ClientChannelInfo) : ProducerManager :=
  (m.unregisterGroup group info.channel).unregisterHash group

def doChannelCloseEvent (channel : Channel) : ProducerManager :=
  { m with groupChannelTable :=
      mapMaybe (fun _ channelTable => some (channelTable.erase channel)) m.groupChannelTable }

def isExpired (now : ℤ) (i : ℕ) : Bool :=
  (m.infos[i]?).any fun info => ChannelExpiredTimeout < now - info.lastUpdateTimestamp

def removeExpired (now : ℤ) (chlMap : Table Channel ℕ) : Table Channel ℕ :=
  mapMaybe (fun _ i => if m.isExpired now i then none else some i) chlMap

/-- The connections are closed as well, which is told later by a close event. -/
def scanNotActiveChannel (now : ℤ) : ProducerManager :=
  { m with groupChannelTable :=
      mapMaybe (fun _ chlMap => some (m.removeExpired now chlMap)) m.groupChannelTable }

/-- `generateRandmonNum`, of the number drawn; the smallest one has no absolute value. -/
def generateRandmonNum (value : Int32) : Int32 := if value < 0 then -value else value

inductive Picked
  | threw
  | returned (info : Option ℕ)
deriving DecidableEq

/-- `pickProducerChannelRandomly`, of the number drawn. -/
def pickProducerChannelRandomly (value producerGroupHashCode : Int32) : Picked :=
  match m.hashcodeChannelTable.lookup (.ofInt producerGroupHashCode) with
  | some channelInfoList =>
    if channelInfoList.isEmpty then .returned none
    else
      let index := generateRandmonNum value % Int32.ofNat channelInfoList.length
      if index < 0 then .threw
      else
        match channelInfoList[index.toInt.toNat]? with
        | some info => .returned (some info)
        | none => .threw
  | none => .returned none

end ProducerManager

inductive Action
  | newInfo (channel : Channel) (clientId : Text) (now : ℤ)
  | registerProducer (group : Text) (i : ℕ) (now : ℤ)
  | unregisterProducer (group : Text) (i : ℕ)
  | doChannelCloseEvent (channel : Channel)
  | scanNotActiveChannel (now : ℤ)

/-- The calls, with the client objects they are given. -/
def step (m : ProducerManager) : Action → Option ProducerManager
  | .newInfo channel clientId now => some { m with infos := m.infos ++ [⟨channel, clientId, now⟩] }
  | .registerProducer group i now => (m.infos[i]?).map (m.registerProducer now group i)
  | .unregisterProducer group i => (m.infos[i]?).map (m.unregisterProducer group)
  | .doChannelCloseEvent channel => some (m.doChannelCloseEvent channel)
  | .scanNotActiveChannel now => some (m.scanNotActiveChannel now)

/-! ### The promise -/

/-- The channel is registered for a group whose name has the hash. -/
def Registered (m : ProducerManager) (hash : Int32) (channel : Channel) : Prop :=
  ∃ group channelTable, hashCode group = hash ∧
    m.groupChannelTable.lookup group = some channelTable ∧ channel ∈ channelTable

/-- The client is one of a channel that is registered for the hash. -/
def Live (m : ProducerManager) (hash : Int32) (i : ℕ) : Prop :=
  ∃ info, m.infos[i]? = some info ∧ Registered m hash info.channel

/-- Whatever number is drawn, a client of a registered channel is picked if there is one, and none
otherwise. -/
def Sound (m : ProducerManager) (hash : Int32) : Prop := ∀ value, ∃ picked,
  m.pickProducerChannelRandomly value hash = .returned picked ∧
  (∀ i, picked = some i → Live m hash i) ∧
  (picked = none → ∀ channel, ¬ Registered m hash channel)

/-- The client of the last registration for a group whose name has the hash. -/
def lastRegistered (m : ProducerManager) (hash : Int32) : Option ℕ :=
  (m.registrations.find? fun r => hashCode r.1 = hash).map Prod.snd

/-! ### The invariant -/

/-- The second table has the last registration for each hash, and nothing else. -/
structure Inv (m : ProducerManager) : Prop where
  strings : ∀ group, m.hashcodeChannelTable.lookup (.ofString group) = none
  mirror : ∀ hash, m.hashcodeChannelTable.lookup (.ofInt hash) =
    (lastRegistered m hash).map fun i => [i]
  known : ∀ hash channel, Registered m hash channel → lastRegistered m hash ≠ none

lemma inv_new : Inv {} where
  strings := fun _ => rfl
  mirror := fun _ => rfl
  known := fun _ _ h => by
    obtain ⟨_, _, -, hlookup, -⟩ := h
    cases hlookup

section

variable {m m' : ProducerManager}

/-- A call that only takes channels away. -/
lemma Inv.fewer (h : Inv m) (hhash : m'.hashcodeChannelTable = m.hashcodeChannelTable)
    (hlast : m'.registrations = m.registrations)
    (hfewer : ∀ hash channel, Registered m' hash channel → Registered m hash channel) :
    Inv m' where
  strings := hhash ▸ h.strings
  mirror := by
    intro hash
    rw [hhash, h.mirror, lastRegistered, lastRegistered, hlast]
  known := fun hash channel hreg => by
    rw [lastRegistered, hlast]
    exact h.known hash channel (hfewer hash channel hreg)

lemma registered_registerGroup (m : ProducerManager) (now : ℤ) (group : Text) (i : ℕ)
    (info : ClientChannelInfo) (hash : Int32) (channel : Channel)
    (h : Registered (m.registerGroup now group i info) hash channel) :
    Registered m hash channel ∨ hash = hashCode group := by
  obtain ⟨group', channelTable, rfl, hlookup, hmem⟩ := h
  by_cases heq : group' = group
  · exact .inr (congrArg hashCode heq)
  · refine .inl ⟨group', channelTable, rfl, ?_, hmem⟩
    rw [ProducerManager.registerGroup] at hlookup
    split at hlookup <;> rwa [lookup_insert_ite, if_neg heq] at hlookup

lemma Inv.registerProducer (h : Inv m) {now : ℤ} {group : Text} {i : ℕ}
    {info : ClientChannelInfo} : Inv (m.registerProducer now group i info) := by
  have hhash : (m.registerGroup now group i info).hashcodeChannelTable =
      m.hashcodeChannelTable := by
    rw [ProducerManager.registerGroup]
    split <;> rfl
  have hlast : (m.registerGroup now group i info).registrations = m.registrations := by
    rw [ProducerManager.registerGroup]
    split <;> rfl
  have hregistered := fun hash channel =>
    registered_registerGroup m now group i info hash channel
  rw [ProducerManager.registerProducer, ProducerManager.registerHash]
  generalize m.registerGroup now group i info = m₁ at *
  have hfind : ∀ hash, lastRegistered { m₁ with registrations := (group, i) :: m₁.registrations }
      hash = if hashCode group = hash then some i else lastRegistered m hash := by
    intro hash
    rw [lastRegistered, List.find?_cons]
    by_cases heq : hashCode group = hash
    · simp [heq]
    · simp [heq, lastRegistered, hlast]
  rw [hhash, h.strings]
  refine ⟨fun group' => ?_, fun hash => ?_, fun hash channel hreg => ?_⟩
  · rw [lookup_insert_ite, if_neg (by simp)]
    exact h.strings group'
  · refine Eq.trans ?_ (congrArg (Option.map fun i => [i]) (hfind hash)).symm
    rw [lookup_insert_ite]
    by_cases heq : hashCode group = hash
    · rw [if_pos (by rw [heq]), if_pos heq]
      rfl
    · rw [if_neg (by simpa using fun h => heq h.symm), if_neg heq]
      exact h.mirror hash
  · refine (hfind hash).trans_ne ?_
    split_ifs with heq
    · exact Option.some_ne_none i
    · refine h.known hash channel ?_
      exact (hregistered hash channel hreg).resolve_right fun h => heq h.symm

lemma registered_unregisterGroup {group : Text} {channel' : Channel} {hash : Int32}
    {channel : Channel} (h : Registered (m.unregisterGroup group channel') hash channel) :
    Registered m hash channel := by
  rw [ProducerManager.unregisterGroup] at h
  split at h
  · rename_i channelTable hfound
    split_ifs at h with hempty
    · exact h
    · obtain ⟨group', channelTable', rfl, hlookup, hmem⟩ := h
      dsimp only at hlookup
      split_ifs at hlookup with hlast
      · rw [lookup_erase_ite] at hlookup
        split_ifs at hlookup
        exact ⟨group', channelTable', rfl, hlookup, hmem⟩
      · rw [lookup_insert_ite] at hlookup
        split_ifs at hlookup with heq
        · cases hlookup
          exact ⟨group', channelTable, rfl, heq ▸ hfound, (AList.mem_erase.mp hmem).2⟩
        · exact ⟨group', channelTable', rfl, hlookup, hmem⟩
  · exact h

theorem inv_step {a : Action} (h : Inv m) (hs : step m a = some m') : Inv m' := by
  cases a with
  | newInfo channel clientId now =>
    cases hs
    exact h.fewer rfl rfl fun _ _ hreg => hreg
  | registerProducer group i now =>
    obtain ⟨info, -, rfl⟩ := Option.map_eq_some_iff.mp hs
    exact h.registerProducer
  | unregisterProducer group i =>
    obtain ⟨info, -, rfl⟩ := Option.map_eq_some_iff.mp hs
    have hsame : m.unregisterProducer group info = m.unregisterGroup group info.channel := by
      rw [ProducerManager.unregisterProducer, ProducerManager.unregisterHash]
      split <;> rfl
    rw [hsame]
    refine h.fewer ?_ ?_ fun _ _ => registered_unregisterGroup
    all_goals
      rw [ProducerManager.unregisterGroup]
      split
      · split <;> rfl
      · rfl
  | doChannelCloseEvent channel =>
    cases hs
    refine h.fewer rfl rfl fun hash channel' hreg => ?_
    obtain ⟨group, channelTable, rfl, hlookup, hmem⟩ := hreg
    rw [ProducerManager.doChannelCloseEvent, lookup_mapMaybe, Option.bind_eq_some_iff] at hlookup
    obtain ⟨old, hold, heq⟩ := hlookup
    cases heq
    exact ⟨group, old, rfl, hold, (AList.mem_erase.mp hmem).2⟩
  | scanNotActiveChannel now =>
    cases hs
    refine h.fewer rfl rfl fun hash channel hreg => ?_
    obtain ⟨group, channelTable, rfl, hlookup, hmem⟩ := hreg
    rw [ProducerManager.scanNotActiveChannel, lookup_mapMaybe,
      Option.bind_eq_some_iff] at hlookup
    obtain ⟨old, hold, heq⟩ := hlookup
    cases heq
    obtain ⟨i, hi⟩ := mem_iff_lookup.mp hmem
    rw [ProducerManager.removeExpired, lookup_mapMaybe, Option.bind_eq_some_iff] at hi
    obtain ⟨i', hi', -⟩ := hi
    exact ⟨group, old, rfl, hold, mem_iff_lookup.mpr ⟨i', hi'⟩⟩

/-! ### What is picked -/

/-- The only element of a list is picked, whatever number is drawn. -/
lemma pick_eq (h : Inv m) (value hash : Int32) :
    m.pickProducerChannelRandomly value hash = .returned (lastRegistered m hash) := by
  rw [ProducerManager.pickProducerChannelRandomly, h.mirror]
  cases lastRegistered m hash with
  | none => rfl
  | some i =>
    have hindex : ∀ x : Int32, x % Int32.ofNat [i].length = 0 := fun x => by
      change x % 1 = 0
      exact Int32.mod_one
    simp only [Option.map_some, List.isEmpty_cons, hindex]
    rfl

lemma Inv.sound_iff (h : Inv m) (hash : Int32) :
    Sound m hash ↔ ∀ i, lastRegistered m hash = some i → Live m hash i := by
  constructor
  · intro hsound i hi
    obtain ⟨picked, hpicked, hlive, -⟩ := hsound 0
    rw [pick_eq h, ProducerManager.Picked.returned.injEq] at hpicked
    exact hlive i (hpicked.symm.trans hi)
  · refine fun hlast value => ⟨lastRegistered m hash, pick_eq h value hash, hlast, ?_⟩
    exact fun hnone channel hreg => h.known hash channel hreg hnone

end

/-- **The producer that is picked.** After every run, what is picked for a hash is right exactly
when the channel of the last registration for the hash, if there was one, is still registered for
it. -/
theorem producer_picked (as : List Action) (m : ProducerManager) (hr : run step {} as = some m)
    (hash : Int32) :
    Sound m hash ↔ ∀ i, lastRegistered m hash = some i → Live m hash i :=
  (run_inductive (fun _ _ _ => inv_step) inv_new hr).sound_iff hash

/-- The tables after a run. -/
def after (as : List Action) : ProducerManager := (run step {} as).getD {}

def registered : List Action := [.newInfo 1 ['c'] 0, .registerProducer ['g'] 0 0]

def unregistered : List Action := registered ++ [.unregisterProducer ['g'] 0]

theorem producer_picked_registered : Sound (after registered) (hashCode ['g']) ↔
    ∀ i, lastRegistered (after registered) (hashCode ['g']) = some i →
      Live (after registered) (hashCode ['g']) i :=
  producer_picked registered _ rfl (hashCode ['g'])

theorem producer_picked_unregistered :
    ¬ ∀ as m, run step {} as = some m → ∀ hash, Sound m hash := by
  intro h
  obtain ⟨picked, hpicked, hlive, -⟩ :=
    h unregistered (after unregistered) rfl (hashCode ['g']) 0
  have hstale : (after unregistered).pickProducerChannelRandomly 0 (hashCode ['g']) =
      .returned (some 0) := by decide
  rw [hstale, ProducerManager.Picked.returned.injEq] at hpicked
  obtain ⟨info, -, group, channelTable, -, hlookup, -⟩ := hlive 0 hpicked.symm
  cases hlookup

end CloudMQ.Producers
