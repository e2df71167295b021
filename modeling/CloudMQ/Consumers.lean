import CloudMQ.Producers

/-!
The connected consumers, by group and by channel, and the calls that tell a group's members that
it has changed.
-/

namespace CloudMQ.Consumers

open CloudMQ.Utf8 CloudMQ.Tables
open CloudMQ.Producers (Channel ClientChannelInfo)

def ChannelExpiredTimeout : ℤ := 1000 * 120

structure SubscriptionData where
  topic : Text
  subVersion : ℤ
deriving DecidableEq

/-- The client objects, by number. -/
abbrev Infos := ℕ → ClientChannelInfo

structure ConsumerGroupInfo where
  channelInfoTable : Table Channel ℕ := ∅
  subscriptionTable : Table Text SubscriptionData := ∅

namespace ConsumerGroupInfo

variable (info : ConsumerGroupInfo) (infos : Infos)

def getAllChannel : List Channel := info.channelInfoTable.keys

def getAllClientId : List Text := info.channelInfoTable.entries.map fun e => (infos e.2).clientId

def unregisterChannel (channel : Channel) : ConsumerGroupInfo :=
  { info with channelInfoTable := info.channelInfoTable.erase channel }

def doChannelCloseEvent (channel : Channel) : ConsumerGroupInfo × Bool :=
  match info.channelInfoTable.lookup channel with
  | some _ => ({ info with channelInfoTable := info.channelInfoTable.erase channel }, true)
  | none => (info, false)

/-- The group, the client whose timestamp is set, and whether there was a change. A client that
takes the place of another is not a change. -/
def updateChannel (infoNew : ℕ) : ConsumerGroupInfo × ℕ × Bool :=
  let channel := (infos infoNew).channel
  let put := { info with channelInfoTable := info.channelInfoTable.insert channel infoNew }
  match info.channelInfoTable.lookup channel with
  | none => (put, infoNew, true)
  | some infoOld =>
    if (infos infoOld).clientId = (infos infoNew).clientId then (info, infoOld, false)
    else (put, infoOld, false)

/-- The channel of a group is the client's own, another client's or no client's. -/
lemma updateChannel_cases (i : ℕ) :
    info.updateChannel infos i =
        (⟨info.channelInfoTable.insert (infos i).channel i, info.subscriptionTable⟩, i, true) ∧
        info.channelInfoTable.lookup (infos i).channel = none ∨
    ∃ old, info.channelInfoTable.lookup (infos i).channel = some old ∧
      ((infos old).clientId = (infos i).clientId ∧
        info.updateChannel infos i = (info, old, false) ∨
      (infos old).clientId ≠ (infos i).clientId ∧ info.updateChannel infos i =
        (⟨info.channelInfoTable.insert (infos i).channel i, info.subscriptionTable⟩, old,
          false)) := by
  dsimp only [ConsumerGroupInfo.updateChannel]
  cases hfound : info.channelInfoTable.lookup (infos i).channel with
  | none => exact .inl ⟨rfl, rfl⟩
  | some old =>
    refine .inr ⟨old, rfl, ?_⟩
    by_cases hid : (infos old).clientId = (infos i).clientId
    · exact .inl ⟨hid, if_pos hid⟩
    · exact .inr ⟨hid, if_neg hid⟩

/-- The channel is that of a client with the new id, the others are as before. -/
lemma updateChannel_lookup (i : ℕ) :
    (∃ j, (info.updateChannel infos i).1.channelInfoTable.lookup (infos i).channel = some j ∧
      (infos j).clientId = (infos i).clientId) ∧
    ∀ channel, channel ≠ (infos i).channel →
      (info.updateChannel infos i).1.channelInfoTable.lookup channel =
        info.channelInfoTable.lookup channel := by
  rcases info.updateChannel_cases infos i with
    ⟨hupdate, -⟩ | ⟨old, hfound, ⟨hsame, hupdate⟩ | ⟨-, hupdate⟩⟩
  all_goals rw [hupdate]
  · exact ⟨⟨i, AList.lookup_insert _, rfl⟩, fun _ hne => AList.lookup_insert_ne hne⟩
  · exact ⟨⟨old, hfound, hsame⟩, fun _ _ => rfl⟩
  · exact ⟨⟨i, AList.lookup_insert _, rfl⟩, fun _ hne => AList.lookup_insert_ne hne⟩

/-- One round of the loop that adds subscriptions. -/
def addSubscription (s : Table Text SubscriptionData × Bool) (sub : SubscriptionData) :
    Table Text SubscriptionData × Bool :=
  match s.1.lookup sub.topic with
  | none => (s.1.insert sub.topic sub, true)
  | some old =>
    if old.subVersion < sub.subVersion then (s.1.insert sub.topic sub, s.2) else s

/-- The loop that removes the subscriptions that are not in the list. -/
def removeSubscriptions (subList : List SubscriptionData)
    (s : Table Text SubscriptionData × Bool) : Table Text SubscriptionData × Bool :=
  (mapMaybe (fun oldTopic sub => if subList.any (·.topic = oldTopic) then some sub else none) s.1,
    s.2 || s.1.keys.any fun oldTopic => !subList.any (·.topic = oldTopic))

def updateSubscription (subList : List SubscriptionData) : ConsumerGroupInfo × Bool :=
  let s := removeSubscriptions subList
    (subList.foldl addSubscription (info.subscriptionTable, false))
  ({ info with subscriptionTable := s.1 }, s.2)

lemma mem_getAllClientId {info : ConsumerGroupInfo} {infos : Infos} {id : Text} :
    id ∈ info.getAllClientId infos ↔
      ∃ channel i, info.channelInfoTable.lookup channel = some i ∧ (infos i).clientId = id := by
  constructor
  · intro h
    obtain ⟨⟨channel, i⟩, hmem, rfl⟩ := List.mem_map.mp h
    exact ⟨channel, i, mem_entries_iff.mp hmem, rfl⟩
  · rintro ⟨channel, i, hlookup, rfl⟩
    exact List.mem_map.mpr ⟨⟨channel, i⟩, mem_entries_iff.mpr hlookup, rfl⟩

end ConsumerGroupInfo

structure ConsumerManager where
  infos : Infos
  consumerTable : Table Text ConsumerGroupInfo := ∅

/-- The manager after an operation, and the calls of `consumerIdsChanged` that it made. -/
structure Outcome where
  manager : ConsumerManager
  consumerIdsChanged : List (Text × List Channel) := []

namespace ConsumerManager

variable (m : ConsumerManager)

def setLastUpdateTimestamp (now : ℤ) (i : ℕ) : Infos :=
  Function.update m.infos i { m.infos i with lastUpdateTimestamp := now }

lemma clientId_setLastUpdateTimestamp (now : ℤ) (j i : ℕ) :
    (m.setLastUpdateTimestamp now j i).clientId = (m.infos i).clientId := by
  rw [setLastUpdateTimestamp]
  by_cases heq : i = j
  · rw [heq, Function.update_self]
  · rw [Function.update_of_ne heq]

/-- What is returned says whether there was a call. -/
def registerConsumer (now : ℤ) (group : Text) (i : ℕ) (subList : List SubscriptionData) :
    Outcome :=
  let info := (m.consumerTable.lookup group).getD {}
  let (info, infoOld, r1) := info.updateChannel m.infos i
  let (info, r2) := info.updateSubscription subList
  { manager := ⟨m.setLastUpdateTimestamp now infoOld, m.consumerTable.insert group info⟩
    consumerIdsChanged := if r1 || r2 then [(group, info.getAllChannel)] else [] }

/-- What a registration finds in the channel and does to the group. -/
def joined (group : Text) (i : ℕ) : ConsumerGroupInfo × ℕ × Bool :=
  ((m.consumerTable.lookup group).getD {}).updateChannel m.infos i

/-- The clients of the group afterwards, by channel. -/
lemma joined_lookup (group : Text) (i : ℕ) :
    (∃ j, (m.joined group i).1.channelInfoTable.lookup (m.infos i).channel = some j ∧
      (m.infos j).clientId = (m.infos i).clientId) ∧
    ∀ channel, channel ≠ (m.infos i).channel → ∀ j,
      (m.joined group i).1.channelInfoTable.lookup channel = some j ↔
        ∃ old, m.consumerTable.lookup group = some old ∧
          old.channelInfoTable.lookup channel = some j := by
  obtain ⟨hown, hrest⟩ :=
    ((m.consumerTable.lookup group).getD {}).updateChannel_lookup m.infos i
  refine ⟨hown, fun channel hne j => ?_⟩
  rw [joined, hrest channel hne]
  cases m.consumerTable.lookup group with
  | none => exact iff_of_false (fun h => nomatch h) fun ⟨_, h, _⟩ => nomatch h
  | some old => simp

section

variable (now : ℤ) (group : Text) (i : ℕ) (subList : List SubscriptionData)

lemma register_clientId (j : ℕ) :
    ((m.registerConsumer now group i subList).manager.infos j).clientId = (m.infos j).clientId :=
  m.clientId_setLastUpdateTimestamp now _ j

lemma register_lookup_ne (group' : Text) (hne : group' ≠ group) :
    (m.registerConsumer now group i subList).manager.consumerTable.lookup group' =
      m.consumerTable.lookup group' :=
  AList.lookup_insert_ne hne

lemma register_lookup :
    (m.registerConsumer now group i subList).manager.consumerTable.lookup group =
      some ((m.joined group i).1.updateSubscription subList).1 :=
  AList.lookup_insert _

end

def unregisterConsumer (group : Text) (i : ℕ) : Outcome :=
  match m.consumerTable.lookup group with
  | some info =>
    let info := info.unregisterChannel (m.infos i).channel
    { manager :=
        { m with consumerTable :=
            if info.channelInfoTable = ∅ then m.consumerTable.erase group
            else m.consumerTable.insert group info }
      consumerIdsChanged := [(group, info.getAllChannel)] }
  | none => { manager := m }

def doChannelCloseEvent (channel : Channel) : Outcome where
  manager :=
    { m with consumerTable :=
        mapMaybe (fun _ info =>
          let (info, removed) := info.doChannelCloseEvent channel
          if removed && info.channelInfoTable = ∅ then none else some info) m.consumerTable }
  consumerIdsChanged := m.consumerTable.entries.filterMap fun e =>
    let (info, removed) := e.2.doChannelCloseEvent channel
    if removed then some (e.1, info.getAllChannel) else none

def isExpired (now : ℤ) (i : ℕ) : Bool :=
  ChannelExpiredTimeout < now - (m.infos i).lastUpdateTimestamp

/-- `now` is what the clock says at each client. -/
def removeExpired (now : Channel → ℤ) (info : ConsumerGroupInfo) : ConsumerGroupInfo :=
  let live := fun channel i => if m.isExpired (now channel) i then none else some i
  { info with channelInfoTable := mapMaybe live info.channelInfoTable }

/-- The connections are closed as well, which is told later by a close event. -/
def scanNotActiveChannel (now : Text → Channel → ℤ) : Outcome where
  manager :=
    { m with consumerTable :=
        mapMaybe (fun group info =>
          let info := m.removeExpired (now group) info
          if info.channelInfoTable = ∅ then none else some info) m.consumerTable }

end ConsumerManager

inductive Action
  | registerConsumer (now : ℤ) (group : Text) (i : ℕ) (subList : List SubscriptionData)
  | unregisterConsumer (group : Text) (i : ℕ)
  | doChannelCloseEvent (channel : Channel)
  | scanNotActiveChannel (now : Text → Channel → ℤ)

def perform (m : ConsumerManager) : Action → Outcome
  | .registerConsumer now group i subList => m.registerConsumer now group i subList
  | .unregisterConsumer group i => m.unregisterConsumer group i
  | .doChannelCloseEvent channel => m.doChannelCloseEvent channel
  | .scanNotActiveChannel now => m.scanNotActiveChannel now

end CloudMQ.Consumers
