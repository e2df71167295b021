import Mathlib.Data.List.Sort
import CloudMQ.RouteInfo
import CloudMQ.Strings

/-!
Routes: what a name server answers about a topic, and what a client makes of the answer.

A route names the brokers that hold queues of a topic, with their addresses. Two answers are
compared after sorting, so that their order does not count; routes that compare as equal give the
same queues to send to and to pull from, and the same addresses.
-/

namespace CloudMQ.TopicRoutes

open CloudMQ.Utf8 CloudMQ.Tables CloudMQ.Topics CloudMQ.RouteInfo CloudMQ.Strings

structure BrokerData where
  brokerName : Text
  brokerAddrs : BrokerAddrs

structure TopicRouteData where
  orderTopicConf : Option Text
  queueDatas : List QueueData
  brokerDatas : List BrokerData
  filterServerTable : Table Text (List Text)

/-! ### The answer of a name server -/

/-- The tables of a name server, and its configuration of ordered topics. -/
structure NameServer where
  routes : RouteInfoManager
  orderTopicConfig : Table Text Text

/-- The names of the brokers of a topic, in some order. -/
def brokerNameSet (pref : List Text) (queueDatas : List QueueData) : List Text :=
  pref.dedup.filter (· ∈ queueDatas.map (·.brokerName)) ++
    (queueDatas.map (·.brokerName)).dedup.filter (· ∉ pref)

def brokerDataList (names : List Text) (s : RouteInfoManager) : List BrokerData :=
  names.filterMap fun name => (s.brokerAddrTable.lookup name).map fun addrs => ⟨name, addrs⟩

/-- The filter servers of the addresses; an address without any does not survive the encoding. -/
def filterServerMap (brokerDatas : List BrokerData) (s : RouteInfoManager) :
    Table Text (List Text) :=
  mapMaybe (fun addr filters =>
    if brokerDatas.any fun bd => bd.brokerAddrs.entries.any (·.2 = addr) then some filters
    else none) s.filterServerTable

def pickupTopicRouteData (pref : List Text) (topic : Text) (s : RouteInfoManager) :
    Option TopicRouteData :=
  match s.topicQueueTable.lookup topic with
  | none => none
  | some queueDatas =>
    let brokerDatas := brokerDataList (brokerNameSet pref queueDatas) s
    if brokerDatas.isEmpty then none
    else some ⟨none, queueDatas, brokerDatas, filterServerMap brokerDatas s⟩

/-- `none` if the topic does not exist. -/
def getRouteInfoByTopic (pref : List Text) (topic : Text) (n : NameServer) :
    Option TopicRouteData :=
  (pickupTopicRouteData pref topic n.routes).map fun route =>
    { route with orderTopicConf := n.orderTopicConfig.lookup topic }

/-! ### What a client makes of it -/

structure MessageQueue where
  topic : Text
  brokerName : Text
  queueId : Int32
deriving DecidableEq

/-- The queues a producer sends to; whose turn it is is left out. -/
structure TopicPublishInfo where
  orderTopic : Bool := false
  haveTopicRouterInfo : Bool := false
  messageQueueList : List MessageQueue := []
deriving DecidableEq

def TopicPublishInfo.ok (info : TopicPublishInfo) : Bool := !info.messageQueueList.isEmpty

def messageQueues (topic brokerName : Text) (nums : Int32) : List MessageQueue :=
  (List.range nums.toInt.toNat).map fun i => ⟨topic, brokerName, Int32.ofNat i⟩

/-- The queues of one broker of an ordered topic, `name:number`. -/
def orderedQueues (topic broker : Text) : Option (List MessageQueue) :=
  match split ':' broker with
  | name :: nums :: _ => (parseInt nums).map (messageQueues topic name)
  | _ => none

/-- `compareTo` on broker names. -/
def QueueData.le (a b : QueueData) : Prop := utf16 a.brokerName ≤ utf16 b.brokerName

def BrokerData.le (a b : BrokerData) : Prop := utf16 a.brokerName ≤ utf16 b.brokerName

instance : DecidableRel QueueData.le := fun a b =>
  inferInstanceAs (Decidable (utf16 a.brokerName ≤ utf16 b.brokerName))

instance : DecidableRel BrokerData.le := fun a b =>
  inferInstanceAs (Decidable (utf16 a.brokerName ≤ utf16 b.brokerName))

def sortQueues (queueDatas : List QueueData) : List QueueData :=
  queueDatas.insertionSort QueueData.le

def sortBrokers (brokerDatas : List BrokerData) : List BrokerData :=
  brokerDatas.insertionSort BrokerData.le

/-- The queues of one broker that a producer may send to. -/
def writeQueues (topic : Text) (brokerDatas : List BrokerData) (qd : QueueData) :
    List MessageQueue :=
  if isWriteable qd.perm then
    match brokerDatas.find? (·.brokerName = qd.brokerName) with
    | none => []
    | some brokerData =>
      if MASTER_ID ∈ brokerData.brokerAddrs then
        messageQueues topic qd.brokerName qd.writeQueueNums
      else []
  else []

/-- `none` if the configuration of an ordered topic cannot be read. -/
def topicRouteData2TopicPublishInfo (topic : Text) (route : TopicRouteData) :
    Option TopicPublishInfo :=
  match route.orderTopicConf with
  | some (c :: conf) =>
    ((split ';' (c :: conf)).mapM (orderedQueues topic)).map fun queues =>
      { orderTopic := true, messageQueueList := queues.flatten }
  | _ =>
    some { messageQueueList :=
      (sortQueues route.queueDatas).flatMap (writeQueues topic route.brokerDatas) }

def readQueues (topic : Text) (qd : QueueData) : List MessageQueue :=
  if isReadable qd.perm then messageQueues topic qd.brokerName qd.readQueueNums else []

def topicRouteData2TopicSubscribeInfo (topic : Text) (route : TopicRouteData) :
    Finset MessageQueue :=
  (route.queueDatas.flatMap (readQueues topic)).toFinset

/-! ### Comparing two answers -/

def BrokerData.Equals (a b : BrokerData) : Prop :=
  a.brokerName = b.brokerName ∧ Same a.brokerAddrs b.brokerAddrs

instance : DecidableRel BrokerData.Equals := fun _ _ => inferInstanceAs (Decidable (_ ∧ _))

/-- Equal, once queues and brokers have been sorted. -/
def TopicRouteData.Equals (old now : TopicRouteData) : Prop :=
  List.Forall₂ BrokerData.Equals (sortBrokers old.brokerDatas) (sortBrokers now.brokerDatas) ∧
    old.orderTopicConf = now.orderTopicConf ∧
    sortQueues old.queueDatas = sortQueues now.queueDatas ∧
    Same old.filterServerTable now.filterServerTable

instance : DecidableRel TopicRouteData.Equals := fun _ _ => inferInstanceAs (Decidable (_ ∧ _))

def topicRouteDataIsChange (old : Option TopicRouteData) (now : TopicRouteData) : Bool :=
  match old with
  | none => true
  | some old => ¬ old.Equals now

/-! ### Answers -/

/-- No broker is named twice. -/
def TopicRouteData.Once (route : TopicRouteData) : Prop :=
  (route.brokerDatas.map (·.brokerName)).Nodup

variable {pref : List Text} {topic : Text} {n : NameServer} {route old now : TopicRouteData}

lemma nodup_brokerNameSet (pref : List Text) (queueDatas : List QueueData) :
    (brokerNameSet pref queueDatas).Nodup := by
  refine List.Nodup.append (pref.nodup_dedup.filter _) ((List.nodup_dedup _).filter _) ?_
  intro name h h'
  simp only [List.mem_filter, List.mem_dedup, decide_eq_true_eq] at h h'
  exact h'.2 h.1

lemma map_brokerDataList_sublist (names : List Text) (s : RouteInfoManager) :
    ((brokerDataList names s).map (·.brokerName)).Sublist names := by
  induction names with
  | nil => simp [brokerDataList]
  | cons name names ih =>
    rw [brokerDataList, List.filterMap_cons]
    cases s.brokerAddrTable.lookup name with
    | none => exact ih.cons name
    | some addrs => exact ih.cons_cons name

/-- **What a route says** about the brokers it names is what the name server has. -/
lemma getRouteInfoByTopic_brokerDatas (h : getRouteInfoByTopic pref topic n = some route) :
    route.Once ∧ ∀ bd ∈ route.brokerDatas,
      n.routes.brokerAddrTable.lookup bd.brokerName = some bd.brokerAddrs := by
  obtain ⟨r, hr, rfl⟩ := Option.map_eq_some_iff.mp h
  rw [pickupTopicRouteData] at hr
  cases hq : n.routes.topicQueueTable.lookup topic with
  | none => simp [hq] at hr
  | some queueDatas =>
    simp only [hq] at hr
    split_ifs at hr
    obtain rfl := Option.some.inj hr
    constructor
    · exact (nodup_brokerNameSet pref queueDatas).sublist (map_brokerDataList_sublist ..)
    · intro bd hbd
      obtain ⟨name, -, hmap⟩ := List.mem_filterMap.mp hbd
      obtain ⟨addrs, haddrs, rfl⟩ := Option.map_eq_some_iff.mp hmap
      exact haddrs

/-! ### Routes that compare as equal -/

lemma find_brokerName {brokerDatas : List BrokerData} {bd : BrokerData}
    (h : (brokerDatas.map (·.brokerName)).Nodup) (hmem : bd ∈ brokerDatas) :
    brokerDatas.find? (·.brokerName = bd.brokerName) = some bd := by
  cases hfind : brokerDatas.find? (·.brokerName = bd.brokerName) with
  | none => simpa using List.find?_eq_none.mp hfind bd hmem
  | some bd' =>
    have hname : bd'.brokerName = bd.brokerName := by simpa using List.find?_some hfind
    rw [List.inj_on_of_nodup_map h (List.mem_of_find?_eq_some hfind) hmem hname]

lemma exists_of_forall₂ {α : Type} {r : α → α → Prop} {as bs : List α} (h : List.Forall₂ r as bs)
    {a : α} (ha : a ∈ as) : ∃ b ∈ bs, r a b := by
  induction h with
  | nil => simp at ha
  | cons hab _ ih =>
    rcases List.mem_cons.mp ha with rfl | ha
    · exact ⟨_, List.mem_cons_self, hab⟩
    · obtain ⟨b, hb, hr⟩ := ih ha
      exact ⟨b, List.mem_cons_of_mem _ hb, hr⟩

lemma TopicRouteData.Equals.brokers (h : old.Equals now) :
    (∀ bd ∈ old.brokerDatas, ∃ bd' ∈ now.brokerDatas, bd.Equals bd') ∧
      ∀ bd' ∈ now.brokerDatas, ∃ bd ∈ old.brokerDatas, bd.Equals bd' := by
  constructor
  · intro bd hbd
    obtain ⟨bd', hbd', heq⟩ := exists_of_forall₂ h.1 ((List.mem_insertionSort _).mpr hbd)
    exact ⟨bd', (List.mem_insertionSort _).mp hbd', heq⟩
  · intro bd' hbd'
    obtain ⟨bd, hbd, heq⟩ := exists_of_forall₂ h.1.flip ((List.mem_insertionSort _).mpr hbd')
    exact ⟨bd, (List.mem_insertionSort _).mp hbd, heq⟩

/-- The broker of a name is the same in both, or missing in both. -/
lemma TopicRouteData.Equals.find (h : old.Equals now) (hnow : now.Once) (name : Text) :
    Option.Rel BrokerData.Equals (old.brokerDatas.find? (·.brokerName = name))
      (now.brokerDatas.find? (·.brokerName = name)) := by
  cases hfind : old.brokerDatas.find? (·.brokerName = name) with
  | none =>
    have hnone : now.brokerDatas.find? (·.brokerName = name) = none := by
      rw [List.find?_eq_none] at hfind ⊢
      intro bd' hbd'
      obtain ⟨bd, hbd, heq⟩ := h.brokers.2 bd' hbd'
      simpa [heq.1] using hfind bd hbd
    rw [hnone]
    exact Option.Rel.none
  | some bd =>
    have hname : bd.brokerName = name := by simpa using List.find?_some hfind
    obtain ⟨bd', hbd', heq⟩ := h.brokers.1 bd (List.mem_of_find?_eq_some hfind)
    have hfind' := find_brokerName hnow hbd'
    rw [← heq.1, hname] at hfind'
    rw [hfind']
    exact Option.Rel.some heq

theorem TopicRouteData.Equals.publish (h : old.Equals now) (hnow : now.Once) (topic : Text) :
    topicRouteData2TopicPublishInfo topic old = topicRouteData2TopicPublishInfo topic now := by
  have hqueues : ∀ qd,
      writeQueues topic old.brokerDatas qd = writeQueues topic now.brokerDatas qd := by
    intro qd
    have hfind := h.find hnow qd.brokerName
    rw [writeQueues, writeQueues]
    revert hfind
    generalize old.brokerDatas.find? (·.brokerName = qd.brokerName) = a
    generalize now.brokerDatas.find? (·.brokerName = qd.brokerName) = b
    intro hrel
    cases hrel with
    | none => rfl
    | some heq => simp only [heq.2.mem_iff MASTER_ID]
  rw [topicRouteData2TopicPublishInfo, topicRouteData2TopicPublishInfo, h.2.1, h.2.2.1]
  simp only [funext hqueues]

theorem TopicRouteData.Equals.subscribe (h : old.Equals now) (topic : Text) :
    topicRouteData2TopicSubscribeInfo topic old = topicRouteData2TopicSubscribeInfo topic now := by
  have hperm : old.queueDatas.Perm now.queueDatas := by
    have hsorted := h.2.2.1
    refine (List.perm_insertionSort QueueData.le _).symm.trans ?_
    rw [← sortQueues, hsorted]
    exact List.perm_insertionSort QueueData.le _
  ext mq
  simp only [topicRouteData2TopicSubscribeInfo, List.mem_toFinset, List.mem_flatMap, hperm.mem_iff]

end CloudMQ.TopicRoutes
