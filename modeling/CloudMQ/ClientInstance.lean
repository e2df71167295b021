import CloudMQ.TopicRoutes
import CloudMQ.Runs

/-!
`MQClientInstance`, the routing tables that the producers and consumers of one client share.

A route is fetched topic by topic. If it differs from the one that is stored under the topic, or a
producer or consumer has nothing for the topic, everything is refreshed: the addresses of the
brokers, the queues of every producer and of every consumer that subscribes to the topic. The
addresses of a broker belong to all the topics it holds.
-/

namespace CloudMQ.ClientInstance

open CloudMQ.Utf8 CloudMQ.Tables CloudMQ.RouteInfo CloudMQ.TopicRoutes CloudMQ.Runs

/-! ### Producers and consumers -/

/-- The `topicPublishInfoTable` of a producer. -/
abbrev Producer := Table Text TopicPublishInfo

/-- A consumer; one that pulls has registered the topics it asks for. -/
structure Consumer where
  registerTopics : Option (Finset Text)
  subscriptionInner : Finset Text
  topicSubscribeInfoTable : Table Text (Finset MessageQueue)

def isPublishTopicNeedUpdate (topic : Text) (p : Producer) : Bool :=
  match p.lookup topic with
  | none => true
  | some prev => !prev.ok

namespace Consumer

def subscriptions (c : Consumer) : Finset Text := c.registerTopics.getD c.subscriptionInner

def isSubscribeTopicNeedUpdate (topic : Text) (c : Consumer) : Bool :=
  decide (topic ∈ c.subscriptionInner) && (c.topicSubscribeInfoTable.lookup topic).isNone

def updateTopicSubscribeInfo (topic : Text) (info : Finset MessageQueue) (c : Consumer) :
    Consumer :=
  if topic ∈ c.subscriptionInner then
    { c with topicSubscribeInfoTable := c.topicSubscribeInfoTable.insert topic info }
  else c

end Consumer

/-! ### The client -/

structure MQClientInstance where
  topicRouteTable : Table Text TopicRouteData
  brokerAddrTable : Table Text BrokerAddrs
  producerTable : Table Text Producer
  consumerTable : Table Text Consumer

def newMQClientInstance : MQClientInstance := ⟨∅, ∅, ∅, ∅⟩

def putBrokers (brokerDatas : List BrokerData) (table : Table Text BrokerAddrs) :
    Table Text BrokerAddrs :=
  brokerDatas.foldl (fun t bd => t.insert bd.brokerName bd.brokerAddrs) table

namespace MQClientInstance

def isNeedUpdateTopicRouteInfo (topic : Text) (c : MQClientInstance) : Bool :=
  c.producerTable.entries.any (fun e => isPublishTopicNeedUpdate topic e.2) ||
    c.consumerTable.entries.any (fun e => e.2.isSubscribeTopicNeedUpdate topic)

/-- The route is to be taken over. -/
def due (topic : Text) (route : TopicRouteData) (c : MQClientInstance) : Bool :=
  topicRouteDataIsChange (c.topicRouteTable.lookup topic) route ||
    c.isNeedUpdateTopicRouteInfo topic

/-- Every producer, every consumer that subscribes to the topic, and the stored route. -/
def takeOver (topic : Text) (route : TopicRouteData) (info : TopicPublishInfo)
    (c : MQClientInstance) : MQClientInstance :=
  { c with
    producerTable := mapMaybe (fun _ p =>
      some (p.insert topic { info with haveTopicRouterInfo := true })) c.producerTable
    consumerTable := mapMaybe (fun _ consumer =>
      some (consumer.updateTopicSubscribeInfo topic
        (topicRouteData2TopicSubscribeInfo topic route))) c.consumerTable
    topicRouteTable := c.topicRouteTable.insert topic route }

/-- An answer of the name server, `none` if there is none; a route that cannot be turned into
queues leaves the addresses behind. -/
def updateTopicRouteInfo (topic : Text) (answer : Option TopicRouteData) (c : MQClientInstance) :
    MQClientInstance :=
  match answer with
  | none => c
  | some route =>
    if c.due topic route then
      let c' := { c with brokerAddrTable := putBrokers route.brokerDatas c.brokerAddrTable }
      match topicRouteData2TopicPublishInfo topic route with
      | none => c'
      | some info => c'.takeOver topic route info
    else c

/-- The topics of a round. -/
def topicList (c : MQClientInstance) : Finset Text :=
  (c.consumerTable.entries.map fun e => e.2.subscriptions).toFinset.biUnion id ∪
    (c.producerTable.entries.map fun e => e.2.keys.toFinset).toFinset.biUnion id

def isBrokerAddrExistInTopicRouteTable (addr : Text) (c : MQClientInstance) : Bool :=
  c.topicRouteTable.entries.any fun e =>
    e.2.brokerDatas.any fun bd => bd.brokerAddrs.entries.any (·.2 = addr)

/-- Addresses that no stored route has are dropped, and names without an address. -/
def cleanOfflineBroker (c : MQClientInstance) : MQClientInstance :=
  { c with brokerAddrTable := mapMaybe (fun _ addrs =>
      let kept := mapMaybe (fun _ addr =>
        if c.isBrokerAddrExistInTopicRouteTable addr then some addr else none) addrs
      if kept.entries.isEmpty then none else some kept) c.brokerAddrTable }

end MQClientInstance

/-- The route of the topic that new topics are modelled on, with fewer queues. -/
def defaultRoute (defaultTopicQueueNums : Int32) (route : TopicRouteData) : TopicRouteData :=
  { route with queueDatas := route.queueDatas.map fun qd =>
      let queueNums := if defaultTopicQueueNums ≤ qd.readQueueNums then defaultTopicQueueNums
        else qd.readQueueNums
      { qd with readQueueNums := queueNums, writeQueueNums := queueNums } }

/-! ### The system -/

structure System where
  nameServer : NameServer
  client : MQClientInstance

inductive Action
  | nameServer (n : NameServer)
  | updateTopicRouteInfoFromNameServer (topic : Text) (answered : Option (List Text))
  | updateDefault (topic createTopicKey : Text) (defaultTopicQueueNums : Int32)
      (answered : Option (List Text))
  | registerProducer (group createTopicKey : Text)
  | unregisterProducer (group : Text)
  | tryToFindTopicPublishInfo (group topic : Text)
  | registerConsumer (group : Text) (registerTopics : Option (Finset Text))
      (subscriptionInner : Finset Text)
  | unregisterConsumer (group : Text)
  | subscribe (group topic : Text)
  | unsubscribe (group topic : Text)
  | cleanOfflineBroker

/-- What the name server answers; `answered` is the order of the brokers in it, `none` if the
request fails. -/
def answer (topic : Text) (answered : Option (List Text)) (n : NameServer) :
    Option TopicRouteData :=
  answered.bind fun pref => getRouteInfoByTopic pref topic n

/-- One step of the client; what is not there cannot be changed. -/
def clientStep (n : NameServer) (c : MQClientInstance) : Action → Option MQClientInstance
  | .nameServer _ => some c
  | .updateTopicRouteInfoFromNameServer topic answered =>
    some (c.updateTopicRouteInfo topic (answer topic answered n))
  | .updateDefault topic createTopicKey defaultTopicQueueNums answered =>
    some (c.updateTopicRouteInfo topic
      ((answer createTopicKey answered n).map (defaultRoute defaultTopicQueueNums)))
  | .registerProducer group createTopicKey =>
    if group ∈ c.producerTable then none
    else
      let producer := (∅ : Producer).insert createTopicKey {}
      some { c with producerTable := c.producerTable.insert group producer }
  | .unregisterProducer group =>
    some { c with producerTable := c.producerTable.erase group }
  | .tryToFindTopicPublishInfo group topic =>
    (c.producerTable.lookup group).bind fun p =>
      if topic ∈ p then none
      else some { c with producerTable := c.producerTable.insert group (p.insert topic {}) }
  | .registerConsumer group registerTopics subscriptionInner =>
    if group ∈ c.consumerTable then none
    else
      let consumer := ⟨registerTopics, subscriptionInner, ∅⟩
      some { c with consumerTable := c.consumerTable.insert group consumer }
  | .unregisterConsumer group =>
    some { c with consumerTable := c.consumerTable.erase group }
  | .subscribe group topic =>
    (c.consumerTable.lookup group).map fun consumer =>
      let consumer' :=
        { consumer with subscriptionInner := insert topic consumer.subscriptionInner }
      { c with consumerTable := c.consumerTable.insert group consumer' }
  | .unsubscribe group topic =>
    (c.consumerTable.lookup group).map fun consumer =>
      let consumer' :=
        { consumer with subscriptionInner := consumer.subscriptionInner.erase topic }
      { c with consumerTable := c.consumerTable.insert group consumer' }
  | .cleanOfflineBroker => some c.cleanOfflineBroker

def nextNameServer (n : NameServer) : Action → NameServer
  | .nameServer n' => n'
  | _ => n

def step (s : System) (a : Action) : Option System :=
  (clientStep s.nameServer s.client a).map fun c => ⟨nextNameServer s.nameServer a, c⟩

/-- A round, in which every request is answered. -/
def round (topics : List Text) (pref : Text → List Text) (s : System) : System :=
  { s with client := topics.foldl (fun c topic =>
      c.updateTopicRouteInfo topic (getRouteInfoByTopic (pref topic) topic s.nameServer)) s.client }

end CloudMQ.ClientInstance
