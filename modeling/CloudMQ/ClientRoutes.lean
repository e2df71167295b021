import CloudMQ.ClientInstance

/-!
What a complete round of a client leads to.

Producers, and consumers that have been updated while they subscribed, hold the queues of the
stored route; so a topic that is not taken over again, because the stored route is the answer, is
as it should be. The addresses of a broker are refreshed by every topic that is taken over, and by
no other.
-/

namespace CloudMQ.ClientRoutes

open CloudMQ.Utf8 CloudMQ.Tables CloudMQ.RouteInfo CloudMQ.TopicRoutes CloudMQ.ClientInstance
open CloudMQ.Runs

variable {c : MQClientInstance} {n : NameServer} {topic t : Text} {route : TopicRouteData}

/-! ### What is to hold -/

/-- The producer's queues for the topic are those of the route. -/
def Publishes (topic : Text) (route : TopicRouteData) (info : TopicPublishInfo) : Prop :=
  ∃ i, topicRouteData2TopicPublishInfo topic route = some i ∧
    info.messageQueueList = i.messageQueueList

/-- Producers and consumers have the queues of the route. -/
structure Settled (topic : Text) (route : TopicRouteData) (c : MQClientInstance) : Prop where
  producers : ∀ group p, c.producerTable.lookup group = some p →
    ∃ info, p.lookup topic = some info ∧ Publishes topic route info
  consumers : ∀ group consumer, c.consumerTable.lookup group = some consumer →
    topic ∈ consumer.subscriptionInner →
    consumer.topicSubscribeInfoTable.lookup topic =
      some (topicRouteData2TopicSubscribeInfo topic route)

/-- The client has the addresses of the brokers of the route. -/
def Addressed (route : TopicRouteData) (c : MQClientInstance) : Prop :=
  ∀ bd ∈ route.brokerDatas, ∃ addrs, c.brokerAddrTable.lookup bd.brokerName = some addrs ∧
    Same addrs bd.brokerAddrs

/-! ### What every step keeps -/

/-- **Queues come from the stored route.** -/
structure Inv (c : MQClientInstance) : Prop where
  producers : ∀ group p, c.producerTable.lookup group = some p → ∀ topic info,
    p.lookup topic = some info → info.ok → ∃ route, c.topicRouteTable.lookup topic = some route ∧
      Publishes topic route info
  consumers : ∀ group consumer, c.consumerTable.lookup group = some consumer →
    ∀ topic ∈ consumer.subscriptionInner, ∀ info,
    consumer.topicSubscribeInfoTable.lookup topic = some info →
      ∃ route, c.topicRouteTable.lookup topic = some route ∧
        info = topicRouteData2TopicSubscribeInfo topic route

/-- A consumer that subscribes has no queues left of an earlier subscription, unless they are
those of the stored route. -/
def Fresh (s : System) : Action → Prop
  | .subscribe group topic => ∀ consumer, s.client.consumerTable.lookup group = some consumer →
      ∀ info, consumer.topicSubscribeInfoTable.lookup topic = some info →
        ∃ route, s.client.topicRouteTable.lookup topic = some route ∧
          info = topicRouteData2TopicSubscribeInfo topic route
  | _ => True

lemma lookup_producers_takeOver {info : TopicPublishInfo} {group : Text} {p : Producer}
    (h : (c.takeOver topic route info).producerTable.lookup group = some p) :
    ∃ p', c.producerTable.lookup group = some p' ∧
      p = p'.insert topic { info with haveTopicRouterInfo := true } := by
  rw [MQClientInstance.takeOver, lookup_mapMaybe, Option.bind_eq_some_iff] at h
  obtain ⟨p', hp', heq⟩ := h
  exact ⟨p', hp', (Option.some.inj heq).symm⟩

lemma lookup_consumers_takeOver {info : TopicPublishInfo} {group : Text} {consumer : Consumer}
    (h : (c.takeOver topic route info).consumerTable.lookup group = some consumer) :
    ∃ consumer', c.consumerTable.lookup group = some consumer' ∧
      consumer = consumer'.updateTopicSubscribeInfo topic
        (topicRouteData2TopicSubscribeInfo topic route) := by
  rw [MQClientInstance.takeOver, lookup_mapMaybe, Option.bind_eq_some_iff] at h
  obtain ⟨consumer', hc', heq⟩ := h
  exact ⟨consumer', hc', (Option.some.inj heq).symm⟩

@[simp] lemma subscriptionInner_update (consumer : Consumer) (topic : Text)
    (info : Finset MessageQueue) :
    (consumer.updateTopicSubscribeInfo topic info).subscriptionInner =
      consumer.subscriptionInner := by
  rw [Consumer.updateTopicSubscribeInfo]
  split_ifs <;> rfl

lemma lookup_update_of_mem {consumer : Consumer} (h : topic ∈ consumer.subscriptionInner)
    (info : Finset MessageQueue) :
    (consumer.updateTopicSubscribeInfo topic info).topicSubscribeInfoTable.lookup topic =
      some info := by
  rw [Consumer.updateTopicSubscribeInfo, if_pos h, lookup_insert_ite, if_pos rfl]

lemma lookup_update_of_ne (consumer : Consumer) (h : t ≠ topic) (info : Finset MessageQueue) :
    (consumer.updateTopicSubscribeInfo topic info).topicSubscribeInfoTable.lookup t =
      consumer.topicSubscribeInfoTable.lookup t := by
  rw [Consumer.updateTopicSubscribeInfo]
  split_ifs
  · rw [lookup_insert_ite, if_neg h]
  · rfl

lemma settled_takeOver {info : TopicPublishInfo}
    (h : topicRouteData2TopicPublishInfo topic route = some info) (c : MQClientInstance) :
    Settled topic route (c.takeOver topic route info) := by
  constructor
  · intro group p hp
    obtain ⟨p', -, rfl⟩ := lookup_producers_takeOver hp
    exact ⟨{ info with haveTopicRouterInfo := true }, by rw [lookup_insert_ite, if_pos rfl], info,
      h, rfl⟩
  · intro group consumer hconsumer hmem
    obtain ⟨consumer', -, rfl⟩ := lookup_consumers_takeOver hconsumer
    exact lookup_update_of_mem (by simpa using hmem) _

/-- **What an answer can do**: nothing, refresh the addresses only, or take the route over. -/
lemma update_cases (c : MQClientInstance) (topic : Text) (route : TopicRouteData) :
    (c.due topic route = false ∧ c.updateTopicRouteInfo topic (some route) = c) ∨
    (c.due topic route = true ∧ topicRouteData2TopicPublishInfo topic route = none ∧
      c.updateTopicRouteInfo topic (some route) =
        { c with brokerAddrTable := putBrokers route.brokerDatas c.brokerAddrTable }) ∨
    (c.due topic route = true ∧ ∃ info, topicRouteData2TopicPublishInfo topic route = some info ∧
      c.updateTopicRouteInfo topic (some route) = MQClientInstance.takeOver topic route info
        { c with brokerAddrTable := putBrokers route.brokerDatas c.brokerAddrTable }) := by
  cases hdue : c.due topic route with
  | false => exact Or.inl ⟨rfl, by simp [MQClientInstance.updateTopicRouteInfo, hdue]⟩
  | true =>
    refine Or.inr ?_
    cases hinfo : topicRouteData2TopicPublishInfo topic route with
    | none =>
      exact Or.inl ⟨rfl, rfl, by simp [MQClientInstance.updateTopicRouteInfo, hdue, hinfo]⟩
    | some info =>
      exact Or.inr ⟨rfl, info, rfl, by simp [MQClientInstance.updateTopicRouteInfo, hdue, hinfo]⟩

lemma Inv.takeOver (h : Inv c) {info : TopicPublishInfo}
    (hinfo : topicRouteData2TopicPublishInfo topic route = some info) :
    Inv (c.takeOver topic route info) := by
  have hsettled := settled_takeOver hinfo c
  constructor
  · intro group p hp t i hi hok
    change ∃ r, (c.topicRouteTable.insert topic route).lookup t = some r ∧ _
    rw [lookup_insert_ite]
    split_ifs with ht
    · subst ht
      obtain ⟨i', hi', hpub⟩ := hsettled.producers group p hp
      obtain rfl := Option.some.inj (hi.symm.trans hi')
      exact ⟨route, rfl, hpub⟩
    · obtain ⟨p', hp', rfl⟩ := lookup_producers_takeOver hp
      rw [lookup_insert_ite, if_neg ht] at hi
      exact h.producers group p' hp' t i hi hok
  · intro group consumer hconsumer t hmem i hi
    change ∃ r, (c.topicRouteTable.insert topic route).lookup t = some r ∧ _
    rw [lookup_insert_ite]
    split_ifs with ht
    · subst ht
      have hsub := hsettled.consumers group consumer hconsumer hmem
      exact ⟨route, rfl, Option.some.inj (hi.symm.trans hsub)⟩
    · obtain ⟨consumer', hconsumer', rfl⟩ := lookup_consumers_takeOver hconsumer
      rw [lookup_update_of_ne _ ht] at hi
      exact h.consumers group consumer' hconsumer' t (by simpa using hmem) i hi

lemma Inv.setAddrs (h : Inv c) (table : Table Text BrokerAddrs) :
    Inv { c with brokerAddrTable := table } := ⟨h.producers, h.consumers⟩

lemma Inv.update (h : Inv c) (topic : Text) (answer : Option TopicRouteData) :
    Inv (c.updateTopicRouteInfo topic answer) := by
  cases answer with
  | none => exact h
  | some route =>
    rcases update_cases c topic route with ⟨-, heq⟩ | ⟨-, -, heq⟩ | ⟨-, info, hinfo, heq⟩
    · rw [heq]
      exact h
    · rw [heq]
      exact h.setAddrs _
    · rw [heq]
      exact (h.setAddrs _).takeOver hinfo

/-- A consumer is put back with the subscriptions and queues it may have. -/
lemma Inv.putConsumer (h : Inv c) {group : Text} {consumer : Consumer}
    (hc : ∀ topic ∈ consumer.subscriptionInner, ∀ info,
      consumer.topicSubscribeInfoTable.lookup topic = some info →
        ∃ route, c.topicRouteTable.lookup topic = some route ∧
          info = topicRouteData2TopicSubscribeInfo topic route) :
    Inv { c with consumerTable := c.consumerTable.insert group consumer } := by
  refine ⟨h.producers, fun g k hk => ?_⟩
  rw [lookup_insert_ite] at hk
  split_ifs at hk
  · obtain rfl := Option.some.inj hk
    exact hc
  · exact h.consumers g k hk

/-- A producer is put back with the queues it had, and perhaps an empty entry. -/
lemma Inv.putProducer (h : Inv c) {group : Text} {p : Producer}
    (hp : ∀ topic info, p.lookup topic = some info → info.ok →
      ∃ route, c.topicRouteTable.lookup topic = some route ∧ Publishes topic route info) :
    Inv { c with producerTable := c.producerTable.insert group p } := by
  refine ⟨fun g q hq => ?_, h.consumers⟩
  rw [lookup_insert_ite] at hq
  split_ifs at hq
  · obtain rfl := Option.some.inj hq
    exact hp
  · exact h.producers g q hq

lemma inv_clientStep (h : Inv c) {a : Action} {c' : MQClientInstance} (hfresh : Fresh ⟨n, c⟩ a)
    (hs : clientStep n c a = some c') : Inv c' := by
  cases a with
  | nameServer n' =>
    obtain rfl := Option.some.inj hs
    exact h
  | updateTopicRouteInfoFromNameServer topic answered =>
    obtain rfl := Option.some.inj hs
    exact h.update _ _
  | updateDefault topic createTopicKey nums answered =>
    obtain rfl := Option.some.inj hs
    exact h.update _ _
  | registerProducer group createTopicKey =>
    simp only [clientStep] at hs
    split_ifs at hs
    obtain rfl := Option.some.inj hs
    refine h.putProducer fun topic info hinfo hok => ?_
    rw [lookup_insert_ite] at hinfo
    split_ifs at hinfo
    · obtain rfl := Option.some.inj hinfo
      simp [TopicPublishInfo.ok] at hok
    · simp at hinfo
  | unregisterProducer group =>
    obtain rfl := Option.some.inj hs
    refine ⟨fun g p hp => ?_, h.consumers⟩
    rw [lookup_erase_ite] at hp
    split_ifs at hp
    exact h.producers g p hp
  | tryToFindTopicPublishInfo group topic =>
    obtain ⟨p, hp, hs⟩ := Option.bind_eq_some_iff.mp hs
    split_ifs at hs
    obtain rfl := Option.some.inj hs
    refine h.putProducer fun t info hinfo hok => ?_
    rw [lookup_insert_ite] at hinfo
    split_ifs at hinfo
    · obtain rfl := Option.some.inj hinfo
      simp [TopicPublishInfo.ok] at hok
    · exact h.producers group p hp t info hinfo hok
  | registerConsumer group registerTopics subscriptionInner =>
    simp only [clientStep] at hs
    split_ifs at hs
    obtain rfl := Option.some.inj hs
    refine h.putConsumer fun topic _ info hinfo => ?_
    simp at hinfo
  | unregisterConsumer group =>
    obtain rfl := Option.some.inj hs
    refine ⟨h.producers, fun g k hk => ?_⟩
    rw [lookup_erase_ite] at hk
    split_ifs at hk
    exact h.consumers g k hk
  | subscribe group topic =>
    obtain ⟨consumer, hc, rfl⟩ := Option.map_eq_some_iff.mp hs
    refine h.putConsumer fun t ht info hinfo => ?_
    rcases Finset.mem_insert.mp ht with rfl | ht
    · exact hfresh consumer hc info hinfo
    · exact h.consumers group consumer hc t ht info hinfo
  | unsubscribe group topic =>
    obtain ⟨consumer, hc, rfl⟩ := Option.map_eq_some_iff.mp hs
    refine h.putConsumer fun t ht info hinfo => ?_
    exact h.consumers group consumer hc t (Finset.mem_of_mem_erase ht) info hinfo
  | cleanOfflineBroker =>
    obtain rfl := Option.some.inj hs
    exact h.setAddrs _

lemma inv_step {s s' : System} {a : Action} (h : Inv s.client) (hfresh : Fresh s a)
    (hs : step s a = some s') : Inv s'.client := by
  obtain ⟨c, hc, rfl⟩ := Option.map_eq_some_iff.mp hs
  exact inv_clientStep h hfresh hc

lemma inv_new : Inv newMQClientInstance :=
  ⟨fun _ _ h => by simp [newMQClientInstance] at h, fun _ _ h => by simp [newMQClientInstance] at h⟩

/-! ### One topic of a round -/

lemma any_entries {V : Type} {table : Table Text V} {f : V → Bool} :
    table.entries.any (fun e => f e.2) = true ↔ ∃ k v, table.lookup k = some v ∧ f v := by
  rw [List.any_eq_true]
  constructor
  · rintro ⟨⟨k, v⟩, hmem, hf⟩
    exact ⟨k, v, mem_entries_iff.mp hmem, hf⟩
  · rintro ⟨k, v, hk, hf⟩
    exact ⟨⟨k, v⟩, mem_entries_iff.mpr hk, hf⟩

lemma due_iff : c.due topic route = true ↔
    topicRouteDataIsChange (c.topicRouteTable.lookup topic) route = true ∨
    (∃ group p, c.producerTable.lookup group = some p ∧ isPublishTopicNeedUpdate topic p) ∨
    ∃ group consumer, c.consumerTable.lookup group = some consumer ∧
      consumer.isSubscribeTopicNeedUpdate topic := by
  rw [MQClientInstance.due, MQClientInstance.isNeedUpdateTopicRouteInfo, Bool.or_eq_true,
    Bool.or_eq_true, any_entries (f := isPublishTopicNeedUpdate topic),
    any_entries (f := Consumer.isSubscribeTopicNeedUpdate topic)]

/-- **A topic that is not due** has what the stored route gives, and that is the answer. -/
lemma Inv.settled_of_not_due (h : Inv c) (hdue : c.due topic route = false) (honce : route.Once) :
    Settled topic route c := by
  rw [Bool.eq_false_iff, Ne, due_iff] at hdue
  simp only [not_or, not_exists, not_and] at hdue
  obtain ⟨hchange, hproducers, hconsumers⟩ := hdue
  obtain ⟨old, hold, hequals⟩ : ∃ old, c.topicRouteTable.lookup topic = some old ∧
      old.Equals route := by
    cases hold : c.topicRouteTable.lookup topic with
    | none => simp [hold, topicRouteDataIsChange] at hchange
    | some old => exact ⟨old, rfl, by simpa [hold, topicRouteDataIsChange] using hchange⟩
  constructor
  · intro group p hp
    have hneed := hproducers group p hp
    rw [isPublishTopicNeedUpdate] at hneed
    cases hinfo : p.lookup topic with
    | none => simp [hinfo] at hneed
    | some info =>
      obtain ⟨r, hr, i, hi, hqueues⟩ := h.producers group p hp topic info hinfo
        (by simpa [hinfo] using hneed)
      obtain rfl := Option.some.inj (hold.symm.trans hr)
      exact ⟨info, rfl, i, by rw [← hequals.publish honce, hi], hqueues⟩
  · intro group consumer hconsumer hmem
    have hneed := hconsumers group consumer hconsumer
    cases hinfo : consumer.topicSubscribeInfoTable.lookup topic with
    | none => simp [Consumer.isSubscribeTopicNeedUpdate, hmem, hinfo] at hneed
    | some info =>
      obtain ⟨r, hr, rfl⟩ := h.consumers group consumer hconsumer topic hmem info hinfo
      obtain rfl := Option.some.inj (hold.symm.trans hr)
      rw [hequals.subscribe]

lemma Inv.settled_update (h : Inv c) (honce : route.Once)
    (hread : (topicRouteData2TopicPublishInfo topic route).isSome) :
    Settled topic route (c.updateTopicRouteInfo topic (some route)) := by
  rcases update_cases c topic route with ⟨hdue, heq⟩ | ⟨-, hnone, -⟩ | ⟨-, info, hinfo, heq⟩
  · rw [heq]
    exact h.settled_of_not_due hdue honce
  · simp [hnone] at hread
  · rw [heq]
    exact settled_takeOver hinfo _

/-! ### The other topics of a round -/

/-- Clients that hold the same for a topic: the stored route, and the queues of the members. -/
structure Alike (t : Text) (c c' : MQClientInstance) : Prop where
  route : c'.topicRouteTable.lookup t = c.topicRouteTable.lookup t
  producers : ∀ group, (c'.producerTable.lookup group).map (·.lookup t) =
    (c.producerTable.lookup group).map (·.lookup t)
  consumers : ∀ group, (c'.consumerTable.lookup group).map (fun consumer =>
      (decide (t ∈ consumer.subscriptionInner), consumer.topicSubscribeInfoTable.lookup t)) =
    (c.consumerTable.lookup group).map fun consumer =>
      (decide (t ∈ consumer.subscriptionInner), consumer.topicSubscribeInfoTable.lookup t)

lemma Alike.symm {c c' : MQClientInstance} (h : Alike t c c') : Alike t c' c :=
  ⟨h.route.symm, fun g => (h.producers g).symm, fun g => (h.consumers g).symm⟩

lemma Alike.producer {c c' : MQClientInstance} (h : Alike t c c') {group : Text} {p' : Producer}
    (hp : c'.producerTable.lookup group = some p') :
    ∃ p, c.producerTable.lookup group = some p ∧ p.lookup t = p'.lookup t := by
  have heq := h.producers group
  rw [hp, Option.map_some, eq_comm, Option.map_eq_some_iff] at heq
  exact heq

lemma Alike.consumer {c c' : MQClientInstance} (h : Alike t c c') {group : Text}
    {consumer' : Consumer} (hc : c'.consumerTable.lookup group = some consumer') :
    ∃ consumer, c.consumerTable.lookup group = some consumer ∧
      (t ∈ consumer.subscriptionInner ↔ t ∈ consumer'.subscriptionInner) ∧
      consumer.topicSubscribeInfoTable.lookup t = consumer'.topicSubscribeInfoTable.lookup t := by
  have heq := h.consumers group
  rw [hc, Option.map_some, eq_comm, Option.map_eq_some_iff] at heq
  obtain ⟨consumer, hconsumer, hpair⟩ := heq
  obtain ⟨hmem, hlookup⟩ := Prod.mk.inj hpair
  exact ⟨consumer, hconsumer, by simpa using hmem, hlookup⟩

lemma Alike.settled {c c' : MQClientInstance} (h : Alike t c c') (hs : Settled t route c) :
    Settled t route c' := by
  constructor
  · intro group p' hp'
    obtain ⟨p, hp, heq⟩ := h.producer hp'
    rw [← heq]
    exact hs.producers group p hp
  · intro group consumer' hc' hmem
    obtain ⟨consumer, hc, hiff, heq⟩ := h.consumer hc'
    rw [← heq]
    exact hs.consumers group consumer hc (hiff.mpr hmem)

lemma Alike.due_of {c c' : MQClientInstance} (h : Alike t c c') (hdue : c'.due t route = true) :
    c.due t route = true := by
  rw [due_iff] at hdue ⊢
  rcases hdue with hchange | ⟨group, p', hp', hneed⟩ | ⟨group, consumer', hc', hneed⟩
  · exact Or.inl (by rwa [← h.route])
  · obtain ⟨p, hp, heq⟩ := h.producer hp'
    refine Or.inr (Or.inl ⟨group, p, hp, ?_⟩)
    rw [isPublishTopicNeedUpdate] at hneed ⊢
    rwa [heq]
  · obtain ⟨consumer, hc, hiff, heq⟩ := h.consumer hc'
    refine Or.inr (Or.inr ⟨group, consumer, hc, ?_⟩)
    rw [Consumer.isSubscribeTopicNeedUpdate] at hneed ⊢
    rwa [heq, decide_eq_decide.mpr hiff]

lemma alike_takeOver (ht : t ≠ topic) (route : TopicRouteData) (info : TopicPublishInfo)
    (c : MQClientInstance) :
    Alike t c (c.takeOver topic route info) := by
  constructor
  · rw [MQClientInstance.takeOver, lookup_insert_ite, if_neg ht]
  · intro group
    rw [MQClientInstance.takeOver, lookup_mapMaybe]
    cases c.producerTable.lookup group with
    | none => rfl
    | some p =>
      rw [Option.bind_some, Option.map_some, Option.map_some, lookup_insert_ite, if_neg ht]
  · intro group
    rw [MQClientInstance.takeOver, lookup_mapMaybe]
    cases c.consumerTable.lookup group with
    | none => rfl
    | some consumer =>
      rw [Option.bind_some, Option.map_some, Option.map_some, lookup_update_of_ne _ ht,
        subscriptionInner_update]

/-- **A topic does not touch another.** -/
lemma alike_update (ht : t ≠ topic) (c : MQClientInstance) (answer : Option TopicRouteData) :
    Alike t c (c.updateTopicRouteInfo topic answer) := by
  cases answer with
  | none => exact ⟨rfl, fun _ => rfl, fun _ => rfl⟩
  | some route =>
    rcases update_cases c topic route with ⟨-, heq⟩ | ⟨-, -, heq⟩ | ⟨-, info, -, heq⟩
    · rw [heq]
      exact ⟨rfl, fun _ => rfl, fun _ => rfl⟩
    · rw [heq]
      exact ⟨rfl, fun _ => rfl, fun _ => rfl⟩
    · rw [heq]
      have h := alike_takeOver ht route info
        { c with brokerAddrTable := putBrokers route.brokerDatas c.brokerAddrTable }
      exact ⟨h.route, h.producers, h.consumers⟩

/-! ### The addresses -/

/-- The broker is named in the route. -/
def Names (broker : Text) (route : TopicRouteData) : Prop :=
  broker ∈ route.brokerDatas.map (·.brokerName)

instance (broker : Text) (route : TopicRouteData) : Decidable (Names broker route) :=
  inferInstanceAs (Decidable (_ ∈ _))

lemma lookup_putBrokers (s : RouteInfoManager) (broker : Text) (brokerDatas : List BrokerData)
    (h : ∀ bd ∈ brokerDatas, s.brokerAddrTable.lookup bd.brokerName = some bd.brokerAddrs)
    (table : Table Text BrokerAddrs) :
    (putBrokers brokerDatas table).lookup broker =
      if broker ∈ brokerDatas.map (·.brokerName) then s.brokerAddrTable.lookup broker
      else table.lookup broker := by
  induction brokerDatas generalizing table with
  | nil => simp [putBrokers]
  | cons bd brokerDatas ih =>
    rw [putBrokers, List.foldl_cons, ← putBrokers,
      ih (fun bd' h' => h bd' (List.mem_cons_of_mem _ h')), lookup_insert_ite, List.map_cons]
    by_cases hrest : broker ∈ brokerDatas.map (·.brokerName)
    · rw [if_pos hrest, if_pos (List.mem_cons_of_mem _ hrest)]
    · by_cases hbd : broker = bd.brokerName
      · subst hbd
        rw [if_neg hrest, if_pos rfl, if_pos List.mem_cons_self, h bd List.mem_cons_self]
      · rw [if_neg hrest, if_neg hbd, if_neg (by simp_all)]

/-- A due topic brings the addresses of its brokers. -/
lemma brokerAddrTable_update (s : RouteInfoManager) (broker : Text)
    (h : ∀ bd ∈ route.brokerDatas, s.brokerAddrTable.lookup bd.brokerName = some bd.brokerAddrs)
    (c : MQClientInstance) (topic : Text) :
    (c.updateTopicRouteInfo topic (some route)).brokerAddrTable.lookup broker =
      if c.due topic route = true ∧ Names broker route then
        s.brokerAddrTable.lookup broker
      else c.brokerAddrTable.lookup broker := by
  have hput := lookup_putBrokers s broker route.brokerDatas h c.brokerAddrTable
  rcases update_cases c topic route with ⟨hdue, heq⟩ | ⟨hdue, -, heq⟩ | ⟨hdue, info, -, heq⟩
  · rw [heq, hdue]
    simp
  · rw [heq, hdue]
    simp only [true_and]
    exact hput
  · rw [heq, hdue]
    simp only [true_and]
    exact hput

/-! ### A round -/

variable {ans : Text → Option TopicRouteData}

/-- The requests of a round, one topic after the other. -/
def requests (ans : Text → Option TopicRouteData) (topics : List Text) (c : MQClientInstance) :
    MQClientInstance :=
  topics.foldl (fun c topic => c.updateTopicRouteInfo topic (ans topic)) c

/-- What the name server answers in a round. -/
def answers (pref : Text → List Text) (n : NameServer) (topic : Text) : Option TopicRouteData :=
  getRouteInfoByTopic (pref topic) topic n

lemma round_client (topics : List Text) (pref : Text → List Text) (s : System) :
    (round topics pref s).client =
      requests (answers pref s.nameServer) topics s.client := rfl

lemma requests_cons (topic : Text) (topics : List Text) (c : MQClientInstance) :
    requests ans (topic :: topics) c =
      requests ans topics (c.updateTopicRouteInfo topic (ans topic)) := rfl

lemma settled_requests_of_notMem (topics : List Text) (ht : t ∉ topics)
    (h : Settled t route c) : Settled t route (requests ans topics c) := by
  induction topics generalizing c with
  | nil => exact h
  | cons topic topics ih =>
    rw [List.mem_cons, not_or] at ht
    rw [requests_cons]
    exact ih ht.2 ((alike_update ht.1 c _).settled h)

/-- After the round, every topic of it is settled. -/
lemma Inv.settled_requests (h : Inv c) (topics : List Text) (ht : t ∈ topics)
    (hans : ans t = some route) (honce : route.Once)
    (hread : (topicRouteData2TopicPublishInfo t route).isSome) :
    Settled t route (requests ans topics c) := by
  induction topics generalizing c with
  | nil => simp at ht
  | cons topic topics ih =>
    rw [requests_cons]
    by_cases hrest : t ∈ topics
    · exact ih (h.update _ _) hrest
    · obtain rfl := (List.mem_cons.mp ht).resolve_right hrest
      refine settled_requests_of_notMem topics hrest ?_
      rw [hans]
      exact h.settled_update honce hread

/-- A topic of the round is due and names the broker. -/
def Refreshed (ans : Text → Option TopicRouteData) (topics : List Text) (c : MQClientInstance)
    (broker : Text) : Prop :=
  ∃ topic ∈ topics, ∃ route, ans topic = some route ∧ c.due topic route = true ∧ Names broker route

/-- What is due before a topic is requested is due after it, but for the topic itself. -/
lemma refreshed_cons_iff (topic : Text) (topics : List Text) (broker : Text) :
    Refreshed ans (topic :: topics) c broker ↔
      Refreshed ans topics (c.updateTopicRouteInfo topic (ans topic)) broker ∨
        ∃ route, ans topic = some route ∧ c.due topic route = true ∧ Names broker route := by
  constructor
  · rintro ⟨t, ht, route, hans, hdue, hnames⟩
    by_cases heq : t = topic
    · exact Or.inr ⟨route, heq ▸ hans, heq ▸ hdue, hnames⟩
    · refine Or.inl ⟨t, (List.mem_cons.mp ht).resolve_left heq, route, hans, ?_, hnames⟩
      exact (alike_update heq c _).symm.due_of hdue
  · rintro (⟨t, ht, route, hans, hdue, hnames⟩ | ⟨route, hans, hdue, hnames⟩)
    · by_cases heq : t = topic
      · subst heq
        refine ⟨t, List.mem_cons_self, route, hans, ?_, hnames⟩
        -- a topic that was not due leaves the client as it is
        by_contra hnot
        rw [hans] at hdue
        rcases update_cases c t route with ⟨-, hc⟩ | ⟨hdue', -⟩ | ⟨hdue', -⟩
        · rw [hc] at hdue
          exact hnot hdue
        · exact hnot hdue'
        · exact hnot hdue'
      · exact ⟨t, List.mem_cons_of_mem _ ht, route, hans, (alike_update heq c _).due_of hdue,
          hnames⟩
    · exact ⟨topic, List.mem_cons_self, route, hans, hdue, hnames⟩

/-- **The addresses after a round**: the name server's for the brokers that a due topic names. -/
lemma brokerAddrTable_requests (s : RouteInfoManager) (broker : Text)
    (h : ∀ topic route, ans topic = some route → ∀ bd ∈ route.brokerDatas,
      s.brokerAddrTable.lookup bd.brokerName = some bd.brokerAddrs)
    (topics : List Text) (c : MQClientInstance) :
    (Refreshed ans topics c broker → (requests ans topics c).brokerAddrTable.lookup broker =
      s.brokerAddrTable.lookup broker) ∧
    (¬ Refreshed ans topics c broker → (requests ans topics c).brokerAddrTable.lookup broker =
      c.brokerAddrTable.lookup broker) := by
  induction topics generalizing c with
  | nil => exact ⟨by rintro ⟨t, ht, -⟩; simp at ht, fun _ => rfl⟩
  | cons topic topics ih =>
    obtain ⟨ih1, ih2⟩ := ih (c.updateTopicRouteInfo topic (ans topic))
    have hone : (c.updateTopicRouteInfo topic (ans topic)).brokerAddrTable.lookup broker =
        if ∃ route, ans topic = some route ∧ c.due topic route = true ∧ Names broker route then
          s.brokerAddrTable.lookup broker
        else c.brokerAddrTable.lookup broker := by
      cases hans : ans topic with
      | none => simp [MQClientInstance.updateTopicRouteInfo]
      | some route =>
        rw [brokerAddrTable_update s broker (h topic route hans) c topic]
        simp
    rw [refreshed_cons_iff, requests_cons]
    constructor
    · intro hor
      by_cases hrest : Refreshed ans topics (c.updateTopicRouteInfo topic (ans topic)) broker
      · exact ih1 hrest
      · rw [ih2 hrest, hone, if_pos (hor.resolve_left hrest)]
    · intro hor
      rw [not_or] at hor
      rw [ih2 hor.1, hone, if_neg hor.2]

/-- **Converged**: of every topic, the client has the addresses and its members the queues. -/
def Converged (topics : Finset Text) (pref : Text → List Text) (s : System) : Prop :=
  ∀ topic ∈ topics, ∀ route, answers pref s.nameServer topic = some route →
    Addressed route s.client ∧ Settled topic route s.client

/-- Every configuration of an ordered topic can be read. -/
def Readable (topics : Finset Text) (pref : Text → List Text) (n : NameServer) : Prop :=
  ∀ topic ∈ topics, ∀ route, answers pref n topic = some route →
    (topicRouteData2TopicPublishInfo topic route).isSome

/-- Every broker of a route has its addresses already, or is named by a topic that is due. -/
def Reached (topics : Finset Text) (pref : Text → List Text) (s : System) : Prop :=
  ∀ topic ∈ topics, ∀ route, answers pref s.nameServer topic = some route →
    ∀ bd ∈ route.brokerDatas,
      (∃ addrs, s.client.brokerAddrTable.lookup bd.brokerName = some addrs ∧
        Same addrs bd.brokerAddrs) ∨
      ∃ topic' ∈ topics, ∃ route', answers pref s.nameServer topic' =
        some route' ∧ s.client.due topic' route' = true ∧ Names bd.brokerName route'

/-- **A round converges** after every run in which no consumer subscribes with queues left of an
earlier subscription, if and only if every broker has its addresses or is named by a topic that is
due. -/
theorem routing_converges_iff (n : NameServer) (as : List Action) (s : System)
    (hr : run step ⟨n, newMQClientInstance⟩ as = some s)
    (hfresh : Meets step Fresh ⟨n, newMQClientInstance⟩ as)
    (topics : List Text) (htopics : ∀ topic, topic ∈ topics ↔ topic ∈ s.client.topicList)
    (pref : Text → List Text) (hread : Readable s.client.topicList pref s.nameServer) :
    Converged s.client.topicList pref (round topics pref s) ↔
      Reached s.client.topicList pref s := by
  have hinv : Inv s.client :=
    run_invariant (fun _ _ _ h hok hs => inv_step h hok hs) inv_new hfresh hr
  have haddrs : ∀ topic route, answers pref s.nameServer topic = some route →
      ∀ bd ∈ route.brokerDatas,
        s.nameServer.routes.brokerAddrTable.lookup bd.brokerName = some bd.brokerAddrs :=
    fun topic route hans => (getRouteInfoByTopic_brokerDatas hans).2
  -- a topic of the list of the round is one of the client's, and the other way round
  have hrefreshed : ∀ broker,
      Refreshed (answers pref s.nameServer) topics s.client broker ↔
        ∃ topic' ∈ s.client.topicList, ∃ route', answers pref s.nameServer topic' = some route' ∧
          s.client.due topic' route' = true ∧ Names broker route' := by
    intro broker
    simp only [Refreshed, htopics]
  constructor
  · intro hconv topic htopic route hans bd hbd
    rw [← hrefreshed]
    obtain ⟨addrs, hlookup, hsame⟩ := (hconv topic htopic route hans).1 bd hbd
    rw [round_client] at hlookup
    by_cases href : Refreshed (answers pref s.nameServer) topics s.client bd.brokerName
    · exact Or.inr href
    · rw [(brokerAddrTable_requests _ _ haddrs topics s.client).2 href] at hlookup
      exact Or.inl ⟨addrs, hlookup, hsame⟩
  · intro hreached topic htopic route hans
    obtain ⟨honce, hroute⟩ := getRouteInfoByTopic_brokerDatas hans
    constructor
    · intro bd hbd
      rw [round_client]
      by_cases href : Refreshed (answers pref s.nameServer) topics s.client bd.brokerName
      · rw [(brokerAddrTable_requests _ _ haddrs topics s.client).1 href]
        exact ⟨bd.brokerAddrs, hroute bd hbd, fun _ => rfl⟩
      · rw [(brokerAddrTable_requests _ _ haddrs topics s.client).2 href]
        exact (hreached topic htopic route hans bd hbd).resolve_right
          fun h => href ((hrefreshed _).mpr h)
    · exact hinv.settled_requests topics ((htopics topic).mpr htopic) hans honce
        (hread topic htopic route hans)

/-! ### Rounds that change nothing -/

instance (topics : Finset Text) (pref : Text → List Text) (n : NameServer) :
    Decidable (Readable topics pref n) :=
  inferInstanceAs (Decidable (∀ topic ∈ topics, ∀ route ∈ answers pref n topic,
    (topicRouteData2TopicPublishInfo topic route).isSome))

instance (topics : Finset Text) (pref : Text → List Text) (s : System) :
    Decidable (Reached topics pref s) :=
  inferInstanceAs (Decidable (∀ topic ∈ topics, ∀ route ∈ answers pref s.nameServer topic,
    ∀ bd ∈ route.brokerDatas,
      (∃ addrs ∈ s.client.brokerAddrTable.lookup bd.brokerName, Same addrs bd.brokerAddrs) ∨
      ∃ topic' ∈ topics, ∃ route' ∈ answers pref s.nameServer topic',
        s.client.due topic' route' = true ∧ Names bd.brokerName route'))

instance (s : System) : (a : Action) → Decidable (Fresh s a)
  | .subscribe group topic => inferInstanceAs (Decidable
      (∀ consumer ∈ s.client.consumerTable.lookup group,
        ∀ info ∈ consumer.topicSubscribeInfoTable.lookup topic,
          ∃ route ∈ s.client.topicRouteTable.lookup topic,
            info = topicRouteData2TopicSubscribeInfo topic route))
  | .nameServer _ | .updateTopicRouteInfoFromNameServer _ _ | .updateDefault _ _ _ _
  | .registerProducer _ _ | .unregisterProducer _ | .tryToFindTopicPublishInfo _ _
  | .registerConsumer _ _ _ | .unregisterConsumer _ | .unsubscribe _ _ | .cleanOfflineBroker =>
    inferInstanceAs (Decidable True)

/-- A name server that one broker has registered with. -/
def oneBroker (addr : Text) (topics : List Text) (nums : Int32) : NameServer :=
  ⟨register ⟨"c".toList, addr, "b".toList, 0, none, ⟨1, 1⟩,
    some (topics.foldl (fun t topic => t.insert topic { readQueueNums := nums }) ∅), none, 1, 1⟩
    newRouteInfoManager, ∅⟩

def newSystem : System := ⟨oneBroker "x".toList ["A".toList, "B".toList] 1, newMQClientInstance⟩

def members : List Action :=
  [.registerProducer "CLIENT_INNER_PRODUCER".toList "TBW102".toList,
    .registerConsumer "g".toList none {"A".toList, "B".toList},
    .updateTopicRouteInfoFromNameServer "A".toList (some []),
    .updateTopicRouteInfoFromNameServer "B".toList (some [])]

/-- The consumer does not subscribe while the topic gets another queue. -/
def resubscribed : List Action :=
  members ++ [.unsubscribe "g".toList "A".toList,
    .nameServer (oneBroker "x".toList ["A".toList, "B".toList] 2),
    .updateTopicRouteInfoFromNameServer "A".toList (some []), .subscribe "g".toList "A".toList]

/-- The broker has another address for a while; one topic alone is updated, and is gone then. -/
def movedAndBack : List Action :=
  members ++ [.nameServer (oneBroker "y".toList ["A".toList, "B".toList] 1),
    .updateTopicRouteInfoFromNameServer "A".toList none,
    .updateTopicRouteInfoFromNameServer "B".toList (some []),
    .nameServer (oneBroker "x".toList ["A".toList] 1)]

def topicsOfRound : List Text := ["A".toList, "B".toList, "TBW102".toList]

def plain (_ : Text) : List Text := []

/-- The queues of the consumer are not those of the answer. -/
def Stale (group topic : Text) (s : System) : Prop :=
  ∃ consumer ∈ s.client.consumerTable.lookup group,
    ∃ route ∈ answers plain s.nameServer topic, topic ∈ consumer.subscriptionInner ∧
      consumer.topicSubscribeInfoTable.lookup topic ≠
        some (topicRouteData2TopicSubscribeInfo topic route)

instance (group topic : Text) (s : System) : Decidable (Stale group topic s) :=
  inferInstanceAs (Decidable (∃ _ ∈ _, ∃ _ ∈ _, _ ∧ _))

/-- The addresses of the client are not those of the answer. -/
def Misled (topic : Text) (s : System) : Prop :=
  ∃ route ∈ answers plain s.nameServer topic, ¬ ∀ bd ∈ route.brokerDatas,
    ∃ addrs ∈ s.client.brokerAddrTable.lookup bd.brokerName, Same addrs bd.brokerAddrs

instance (topic : Text) (s : System) : Decidable (Misled topic s) :=
  inferInstanceAs (Decidable (∃ _ ∈ _, ¬ ∀ bd ∈ _, ∃ _ ∈ _, Same _ _))

lemma mem_iff_of_toFinset {topics : List Text} {s : System}
    (h : topics.toFinset = s.client.topicList) (topic : Text) :
    topic ∈ topics ↔ topic ∈ s.client.topicList := by
  rw [← h, List.mem_toFinset]

/-- A consumer keeps the queues of an earlier subscription; a broker keeps the address that a
topic brought which is gone. -/
theorem routing_converges_stale :
    (∃ s, run step newSystem resubscribed = some s ∧
      (∀ topic, topic ∈ topicsOfRound ↔ topic ∈ s.client.topicList) ∧
      ¬ Converged s.client.topicList plain (round topicsOfRound plain s)) ∧
    ∃ s, run step newSystem movedAndBack = some s ∧ Meets step Fresh newSystem movedAndBack ∧
      (∀ topic, topic ∈ topicsOfRound ↔ topic ∈ s.client.topicList) ∧
      ¬ Converged s.client.topicList plain (round topicsOfRound plain s) := by
  constructor
  · have hrun : (run step newSystem resubscribed).map (fun s =>
        (decide (topicsOfRound.toFinset = s.client.topicList),
          decide (Stale "g".toList "A".toList (round topicsOfRound plain s)))) =
        some (true, true) := by
      decide
    obtain ⟨s, hs, heq⟩ := Option.map_eq_some_iff.mp hrun
    simp only [Prod.mk.injEq, decide_eq_true_eq] at heq
    obtain ⟨htopics, consumer, hc, route, hans, hmem, hne⟩ := heq
    refine ⟨s, hs, mem_iff_of_toFinset htopics, fun hconv => hne ?_⟩
    refine (hconv "A".toList ?_ route hans).2.consumers _ consumer hc hmem
    rw [← mem_iff_of_toFinset htopics]
    decide
  · have hrun : (run step newSystem movedAndBack).map (fun s =>
        (decide (topicsOfRound.toFinset = s.client.topicList),
          decide (Misled "A".toList (round topicsOfRound plain s)))) = some (true, true) := by
      decide
    have hfresh : checks step (fun s a => decide (Fresh s a)) newSystem movedAndBack := by
      decide
    obtain ⟨s, hs, heq⟩ := Option.map_eq_some_iff.mp hrun
    simp only [Prod.mk.injEq, decide_eq_true_eq] at heq
    obtain ⟨htopics, route, hans, hnot⟩ := heq
    refine ⟨s, hs, meets_of_checks (fun _ _ h => of_decide_eq_true h) hfresh,
      mem_iff_of_toFinset htopics, fun hconv => hnot ?_⟩
    refine (hconv "A".toList ?_ route hans).1
    rw [← mem_iff_of_toFinset htopics]
    decide

/-- The broker has another address, and both topics find it. -/
def moved : List Action :=
  members ++ [.nameServer (oneBroker "y".toList ["A".toList, "B".toList] 1)]

theorem routing_converges_moved :
    ∃ s, run step newSystem moved = some s ∧
      Converged s.client.topicList plain (round topicsOfRound plain s) := by
  have hfresh : checks step (fun s a => decide (Fresh s a)) newSystem moved := by decide
  have hrun : (run step newSystem moved).map (fun s =>
      (decide (topicsOfRound.toFinset = s.client.topicList),
        decide (Readable s.client.topicList plain s.nameServer),
        decide (Reached s.client.topicList plain s))) = some (true, true, true) := by
    decide
  obtain ⟨s, hs, heq⟩ := Option.map_eq_some_iff.mp hrun
  simp only [Prod.mk.injEq, decide_eq_true_eq] at heq
  obtain ⟨htopics, hread, hreached⟩ := heq
  exact ⟨s, hs, (routing_converges_iff _ moved s hs
    (meets_of_checks (fun _ _ h => of_decide_eq_true h) hfresh) topicsOfRound
    (mem_iff_of_toFinset htopics) plain hread).mpr hreached⟩

end CloudMQ.ClientRoutes
