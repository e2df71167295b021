import CloudMQ.TopicManager
import CloudMQ.RouteTopics

/-!
A master broker and its name server.

Operations on the topics run at the same time: each changes the table, takes a new version and
writes the file, in this order. `registerBrokerAll` is executed by one thread at a time. A broker
that is not both readable and writeable first copies the table and sets the permission of every
topic; then the version is written to the body, then the table, and the message is on its way.
-/

namespace CloudMQ.BrokerRegistration

open CloudMQ.Utf8 CloudMQ.Tables CloudMQ.Topics CloudMQ.TopicManager CloudMQ.RouteInfo

/-- What is constant about a broker; it is a master. -/
structure Identity where
  clusterName : Text
  brokerAddr : Text
  brokerName : Text
  haServerAddr : Option Text

/-- Where an operation stands that has changed the table. -/
inductive Stage
  | changed
  | bumped
  | persisting (v : DataVersion)
deriving DecidableEq

def Stage.isPersisting : Stage → Bool
  | .persisting _ => true
  | _ => false

/-- The permission that a restricted broker gives its topics. -/
def inForce (brokerPermission : Int32) : Option Int32 :=
  if !isWriteable brokerPermission || !isReadable brokerPermission then some brokerPermission
  else none

/-- A configuration with the permission in force. -/
def permit (permission : Option Int32) (c : TopicConfig) : TopicConfig :=
  match permission with
  | none => c
  | some p => { c with perm := p }

/-- An execution of `registerBrokerAll`: the copy of the table that a restricted broker makes, the
version, when it is written; `quiet` as long as all changes before it have finished and there are
no others. -/
structure Registering where
  restricted : Option (Int32 × Table Text ℕ)
  dataVersion : Option DataVersion
  quiet : Bool

def Registering.permission (r : Registering) : Option Int32 := r.restricted.map (·.1)

/-- A registration on its way. -/
structure Flight where
  dataVersion : DataVersion
  topicConfigTable : TopicConfigTable
  permission : Option Int32
  quiet : Bool

/-- The broker, the name server, the registrations made so far with the permission in force, and
the clock readings before and after the last restart. -/
structure Broker where
  topics : TopicConfigManager
  brokerPermission : Int32
  file : Option (DataVersion × TopicConfigTable)
  ops : List Stage
  registering : Option Registering
  flights : List Flight
  routes : RouteInfoManager
  made : List (DataVersion × Option Int32)
  earlier : List Int64
  readings : List Int64

inductive Action
  | change (c : Change)
  | nextVersion (i : ℕ) (now : Int64)
  | persistBegin (i : ℕ)
  | persistEnd (i : ℕ)
  | updateBrokerConfig (brokerPermission : Int32)
  | registerBrokerAll
  | encodeVersion
  | encodeTable
  | deliver (i : ℕ) (filterServerList : Option (List Text)) (channel : Channel) (now : Int64)
  | restart (brokerPermission : Int32) (now : Int64)

variable (id : Identity) (builtIn : TopicConfigTable)

def registration (f : Flight) (filterServerList : Option (List Text)) (channel : Channel)
    (now : Int64) : Registration :=
  { clusterName := id.clusterName
    brokerAddr := id.brokerAddr
    brokerName := id.brokerName
    brokerId := MASTER_ID
    haServerAddr := id.haServerAddr
    dataVersion := f.dataVersion
    topicConfigTable := some f.topicConfigTable
    filterServerList := filterServerList
    channel := channel
    now := now }

/-- The registrations that have begun no longer come after all changes. -/
def disturb (s : Broker) : Broker :=
  { s with
    registering := s.registering.map fun r => { r with quiet := false }
    flights := s.flights.map fun f => { f with quiet := false } }

/-- `registerBrokerAll` up to the encoding of the body. -/
def beginRegistering (s : Broker) : Broker :=
  match inForce s.brokerPermission with
  | none => { s with registering := some ⟨none, none, s.ops = []⟩ }
  | some p =>
    { s with
      topics := { s.topics with heap := setPerms p s.topics.topicConfigTable s.topics.heap }
      registering := some ⟨some (p, s.topics.topicConfigTable), none, s.ops = []⟩ }

def step (s : Broker) : Action → Option Broker
  | .change c =>
    match change s.topics c with
    | none => some s
    | some topics => some { disturb s with topics := topics, ops := s.ops ++ [.changed] }
  | .nextVersion i now =>
    if s.ops[i]? = some .changed then
      some { s with
        topics := { s.topics with dataVersion := s.topics.dataVersion.nextVersion now }
        ops := s.ops.set i .bumped
        readings := now :: s.readings }
    else none
  | .persistBegin i =>
    if s.ops[i]? = some .bumped ∧ ¬ s.ops.any Stage.isPersisting then
      some { s with ops := s.ops.set i (.persisting s.topics.dataVersion) }
    else none
  | .persistEnd i =>
    match s.ops[i]? with
    | some (.persisting v) =>
      some { s with file := some (v, s.topics.configs), ops := s.ops.eraseIdx i }
    | _ => none
  | .updateBrokerConfig p => some { disturb s with brokerPermission := p }
  | .registerBrokerAll => if s.registering.isNone then some (beginRegistering s) else none
  | .encodeVersion =>
    match s.registering with
    | some ⟨restricted, none, quiet⟩ =>
      some { s with
        registering := some ⟨restricted, some s.topics.dataVersion, quiet⟩
        made := (s.topics.dataVersion, restricted.map (·.1)) :: s.made }
    | _ => none
  | .encodeTable =>
    match s.registering with
    | some ⟨restricted, some v, quiet⟩ =>
      let refs := (restricted.map (·.2)).getD s.topics.topicConfigTable
      some { s with
        registering := none
        flights := s.flights ++ [⟨v, deref s.topics.heap refs, restricted.map (·.1), quiet⟩] }
    | _ => none
  | .deliver i filterServerList channel now =>
    (s.flights[i]?).map fun f =>
      { s with
        routes := (registerBroker (registration id f filterServerList channel now) s.routes).2
        flights := s.flights.eraseIdx i }
  | .restart p now =>
    some { s with
      topics := load builtIn s.file now
      brokerPermission := p
      ops := []
      registering := none
      flights := []
      earlier := s.earlier ++ s.readings
      readings := [now] }

/-- A broker that has just been started, and an empty name server. -/
def boot (file : Option (DataVersion × TopicConfigTable)) (brokerPermission : Int32)
    (now : Int64) : Broker :=
  { topics := load builtIn file now
    brokerPermission := brokerPermission
    file := file
    ops := []
    registering := none
    flights := []
    routes := newRouteInfoManager
    made := []
    earlier := (file.map (·.1.timestatmp)).toList
    readings := [now] }

end CloudMQ.BrokerRegistration
