import CloudMQ.Topics

/-!
`RouteInfoManager`, the five tables of a name server: which brokers hold queues of a topic, which
addresses a broker name has, which names a cluster has, which addresses are alive, and the filter
servers of an address. A broker registers under a name and an id; it is removed by its own
request, when its channel is destroyed, or when it has not registered for two minutes.
-/

namespace CloudMQ.RouteInfo

open CloudMQ.Utf8 CloudMQ.Tables CloudMQ.Topics

def MASTER_ID : Int64 := 0

def BrokerChannelExpiredTime : Int64 := 1000 * 60 * 2

/-- A connection, by identity. -/
abbrev Channel := ℕ

structure QueueData where
  brokerName : Text
  readQueueNums : Int32
  writeQueueNums : Int32
  perm : Int32
  topicSynFlag : Int32
deriving DecidableEq

structure BrokerLiveInfo where
  lastUpdateTimestamp : Int64
  dataVersion : DataVersion
  channel : Channel
  haServerAddr : Option Text
deriving DecidableEq

/-- The addresses of a broker name, by id. -/
abbrev BrokerAddrs := Table Int64 Text

structure RouteInfoManager where
  topicQueueTable : Table Text (List QueueData)
  brokerAddrTable : Table Text BrokerAddrs
  clusterAddrTable : Table Text (Finset Text)
  brokerLiveTable : Table Text BrokerLiveInfo
  filterServerTable : Table Text (List Text)
deriving DecidableEq

def newRouteInfoManager : RouteInfoManager := ⟨∅, ∅, ∅, ∅, ∅⟩

/-! ### Registration -/

/-- The arguments of `registerBroker`, and the time it reads. -/
structure Registration where
  clusterName : Text
  brokerAddr : Text
  brokerName : Text
  brokerId : Int64
  haServerAddr : Option Text
  dataVersion : DataVersion
  topicConfigTable : Option TopicConfigTable
  filterServerList : Option (List Text)
  channel : Channel
  now : Int64

structure RegisterBrokerResult where
  haServerAddr : Option Text
  masterAddr : Option Text

/-- What a name server keeps of a topic of a broker. -/
def queueData (brokerName : Text) (c : TopicConfig) : QueueData :=
  ⟨brokerName, c.readQueueNums, c.writeQueueNums, c.perm, c.topicSysFlag⟩

def createAndUpdateQueueData (brokerName topic : Text) (c : TopicConfig)
    (table : Table Text (List QueueData)) : Table Text (List QueueData) :=
  match table.lookup topic with
  | none => table.insert topic [queueData brokerName c]
  | some qds =>
    let kept := qds.filter fun qd => qd.brokerName ≠ brokerName ∨ qd = queueData brokerName c
    if queueData brokerName c ∈ qds then table.insert topic kept
    else table.insert topic (kept ++ [queueData brokerName c])

/-- The topics of a registration, one after the other. -/
def updateTopics (brokerName : Text) (tcTable : TopicConfigTable)
    (table : Table Text (List QueueData)) : Table Text (List QueueData) :=
  tcTable.entries.foldl (fun t e => createAndUpdateQueueData brokerName e.1 e.2 t) table

def isBrokerTopicConfigChanged (brokerAddr : Text) (dataVersion : DataVersion)
    (s : RouteInfoManager) : Bool :=
  match s.brokerLiveTable.lookup brokerAddr with
  | none => true
  | some prev => prev.dataVersion ≠ dataVersion

/-- The addresses under a name; none if the name is unknown. -/
def brokerAddrs (brokerName : Text) (s : RouteInfoManager) : BrokerAddrs :=
  (s.brokerAddrTable.lookup brokerName).getD ∅

def brokerNames (clusterName : Text) (s : RouteInfoManager) : Finset Text :=
  (s.clusterAddrTable.lookup clusterName).getD ∅

/-- The slot was free. -/
def registerFirst (r : Registration) (s : RouteInfoManager) : Bool :=
  (s.brokerAddrTable.lookup r.brokerName).isNone ||
    ((brokerAddrs r.brokerName s).lookup r.brokerId).isNone

/-- The topics of the registration are looked at. -/
def updates (r : Registration) (s : RouteInfoManager) : Bool :=
  r.brokerId == MASTER_ID &&
    (isBrokerTopicConfigChanged r.brokerAddr r.dataVersion s || registerFirst r s)

def registeredTopics (r : Registration) (s : RouteInfoManager) : Table Text (List QueueData) :=
  if updates r s then
    match r.topicConfigTable with
    | none => s.topicQueueTable
    | some tcTable => updateTopics r.brokerName tcTable s.topicQueueTable
  else s.topicQueueTable

def registeredFilters (r : Registration) (s : RouteInfoManager) : Table Text (List Text) :=
  match r.filterServerList with
  | none => s.filterServerTable
  | some [] => s.filterServerTable.erase r.brokerAddr
  | some (f :: fs) => s.filterServerTable.insert r.brokerAddr (f :: fs)

/-- The tables after a registration. -/
def register (r : Registration) (s : RouteInfoManager) : RouteInfoManager :=
  { clusterAddrTable := s.clusterAddrTable.insert r.clusterName
      (insert r.brokerName (brokerNames r.clusterName s))
    brokerAddrTable := s.brokerAddrTable.insert r.brokerName
      ((brokerAddrs r.brokerName s).insert r.brokerId r.brokerAddr)
    topicQueueTable := registeredTopics r s
    brokerLiveTable := s.brokerLiveTable.insert r.brokerAddr
      ⟨r.now, r.dataVersion, r.channel, r.haServerAddr⟩
    filterServerTable := registeredFilters r s }

/-- A slave is told where its master is. -/
def registerBrokerResult (r : Registration) (s : RouteInfoManager) : RegisterBrokerResult :=
  if r.brokerId = MASTER_ID then ⟨none, none⟩
  else
    match (brokerAddrs r.brokerName s).lookup MASTER_ID with
    | none => ⟨none, none⟩
    | some masterAddr =>
      match s.brokerLiveTable.lookup masterAddr with
      | none => ⟨none, none⟩
      | some brokerLiveInfo => ⟨brokerLiveInfo.haServerAddr, some masterAddr⟩

def registerBroker (r : Registration) (s : RouteInfoManager) :
    RegisterBrokerResult × RouteInfoManager :=
  (registerBrokerResult r (register r s), register r s)

/-! ### Removal -/

/-- A name is taken out of a cluster, and a cluster without names is dropped. -/
def removeName (clusterName brokerName : Text) (table : Table Text (Finset Text)) :
    Table Text (Finset Text) :=
  match table.lookup clusterName with
  | none => table
  | some nameSet =>
    if nameSet.erase brokerName = ∅ then table.erase clusterName
    else table.insert clusterName (nameSet.erase brokerName)

/-- The queues of a broker are taken out of every topic, and topics without queues are dropped. -/
def removeTopicByBrokerName (brokerName : Option Text) (table : Table Text (List QueueData)) :
    Table Text (List QueueData) :=
  mapMaybe (fun _ qds =>
    if qds.filter (fun qd => some qd.brokerName ≠ brokerName) = [] then none
    else some (qds.filter fun qd => some qd.brokerName ≠ brokerName)) table

def unregisterBroker (clusterName brokerAddr brokerName : Text) (brokerId : Int64)
    (s : RouteInfoManager) : RouteInfoManager :=
  match s.brokerAddrTable.lookup brokerName with
  | none =>
    { s with
      brokerLiveTable := s.brokerLiveTable.erase brokerAddr
      filterServerTable := s.filterServerTable.erase brokerAddr }
  | some addrs =>
    if addrs.erase brokerId = ∅ then
      { brokerLiveTable := s.brokerLiveTable.erase brokerAddr
        filterServerTable := s.filterServerTable.erase brokerAddr
        brokerAddrTable := s.brokerAddrTable.erase brokerName
        clusterAddrTable := removeName clusterName brokerName s.clusterAddrTable
        topicQueueTable := removeTopicByBrokerName (some brokerName) s.topicQueueTable }
    else
      { s with
        brokerLiveTable := s.brokerLiveTable.erase brokerAddr
        filterServerTable := s.filterServerTable.erase brokerAddr
        brokerAddrTable := s.brokerAddrTable.insert brokerName (addrs.erase brokerId) }

/-- The orders in which the tables are walked through. -/
structure Walk where
  live : List Text
  names : List Text
  ids : Text → List Int64
  clusters : List Text

/-- The read-locked search for the address of a channel. -/
def findBrokerAddr (channel : Option Channel) (walk : Walk) (s : RouteInfoManager) : Option Text :=
  match channel with
  | none => none
  | some ch => (order walk.live s.brokerLiveTable).find? fun a =>
      (s.brokerLiveTable.lookup a).any fun info => info.channel == ch

/-- What the walk through the addresses has found and left. -/
structure Removed where
  brokerNameFound : Option Text
  removeBrokerName : Bool
  brokerAddrTable : Table Text BrokerAddrs

/-- The walk stops behind the first name that has the address; a name without addresses is
dropped on the way. -/
def removeAddr (brokerAddr : Text) (ids : Text → List Int64) :
    List Text → Bool → Table Text BrokerAddrs → Removed
  | [], removeBrokerName, table => ⟨none, removeBrokerName, table⟩
  | name :: names, removeBrokerName, table =>
    let addrs := (table.lookup name).getD ∅
    match (order (ids name) addrs).find? (fun id => addrs.lookup id = some brokerAddr) with
    | some id =>
      if addrs.erase id = ∅ then ⟨some name, true, table.erase name⟩
      else ⟨some name, removeBrokerName, table.insert name (addrs.erase id)⟩
    | none =>
      if addrs = ∅ then removeAddr brokerAddr ids names true (table.erase name)
      else removeAddr brokerAddr ids names removeBrokerName table

/-- The name is taken out of the first cluster that has it. -/
def removeNameOnce (clusters : List Text) (brokerName : Text) (table : Table Text (Finset Text)) :
    Table Text (Finset Text) :=
  match (order clusters table).find? (fun c => brokerName ∈ (table.lookup c).getD ∅) with
  | none => table
  | some c => removeName c brokerName table

/-- The write-locked removal of an address. -/
def removeBrokerAddr (brokerAddr : Text) (walk : Walk) (s : RouteInfoManager) :
    RouteInfoManager :=
  if brokerAddr = [] then s
  else
    let removed := removeAddr brokerAddr walk.ids (order walk.names s.brokerAddrTable) false
      s.brokerAddrTable
    { brokerLiveTable := s.brokerLiveTable.erase brokerAddr
      filterServerTable := s.filterServerTable.erase brokerAddr
      brokerAddrTable := removed.brokerAddrTable
      clusterAddrTable :=
        match removed.brokerNameFound, removed.removeBrokerName with
        | some name, true => removeNameOnce walk.clusters name s.clusterAddrTable
        | _, _ => s.clusterAddrTable
      topicQueueTable :=
        if removed.removeBrokerName then
          removeTopicByBrokerName removed.brokerNameFound s.topicQueueTable
        else s.topicQueueTable }

/-- The address to remove: the one found, or else the remote address of the channel. -/
def brokerAddrFound (remoteAddr : Option Text) (channel : Option Channel) (walk : Walk)
    (s : RouteInfoManager) : Option Text :=
  (findBrokerAddr channel walk s).or remoteAddr

def onChannelDestroy (remoteAddr : Option Text) (channel : Option Channel) (walk : Walk)
    (s : RouteInfoManager) : RouteInfoManager :=
  match brokerAddrFound remoteAddr channel walk s with
  | none => s
  | some brokerAddr => removeBrokerAddr brokerAddr walk s

def expired (now : Int64) (info : BrokerLiveInfo) : Bool :=
  info.lastUpdateTimestamp + BrokerChannelExpiredTime < now

/-- The walk through the addresses that are alive. Destroying a channel may remove another
address; the walk then fails at its next step, with a `ConcurrentModificationException`. -/
def scan (walk : Text → Walk) (now : Text → Int64) :
    List Text → RouteInfoManager → RouteInfoManager
  | [], s => s
  | brokerAddr :: rest, s =>
    match s.brokerLiveTable.lookup brokerAddr with
    | none => s
    | some info =>
      if expired (now brokerAddr) info then
        let s₁ := { s with brokerLiveTable := s.brokerLiveTable.erase brokerAddr }
        let s₂ := onChannelDestroy (some brokerAddr) (some info.channel) (walk brokerAddr) s₁
        if s₂.brokerLiveTable = s₁.brokerLiveTable then scan walk now rest s₂ else s₂
      else scan walk now rest s

def scanNotActiveBroker (pref : List Text) (walk : Text → Walk) (now : Text → Int64)
    (s : RouteInfoManager) : RouteInfoManager :=
  scan walk now (order pref s.brokerLiveTable) s

end CloudMQ.RouteInfo
