import CloudMQ.RouteInfo
import CloudMQ.Runs

/-!
How the five tables of a name server fit together.

An address in the address table is alive, the names in topics and clusters are names of the
address table, and nothing is kept empty. Registration keeps this up. A removal takes one slot
out of the address table and one cluster's listing of a name, and keeps it up where there is
nothing else to take out.
-/

namespace CloudMQ.RouteTables

open CloudMQ.Utf8 CloudMQ.Tables CloudMQ.Topics CloudMQ.RouteInfo CloudMQ.Runs

variable {s : RouteInfoManager}

/-! ### Slots, listings, channels -/

/-- The address is registered under the name with the id. -/
def Holds (s : RouteInfoManager) (name : Text) (id : Int64) (addr : Text) : Prop :=
  (brokerAddrs name s).lookup id = some addr

lemma holds_iff {name : Text} {id : Int64} {addr : Text} :
    Holds s name id addr ↔
      ∃ addrs, s.brokerAddrTable.lookup name = some addrs ∧ addrs.lookup id = some addr := by
  unfold Holds brokerAddrs
  cases s.brokerAddrTable.lookup name <;> simp

/-- The slots an address is in. -/
def slotsOf (addr : Text) (s : RouteInfoManager) : List (Text × Int64) :=
  s.brokerAddrTable.entries.flatMap fun e =>
    (e.2.keys.filter fun id => e.2.lookup id = some addr).map fun id => (e.1, id)

lemma mem_slotsOf {addr name : Text} {id : Int64} :
    (name, id) ∈ slotsOf addr s ↔ Holds s name id addr := by
  rw [holds_iff, slotsOf, List.mem_flatMap]
  constructor
  · rintro ⟨⟨name', addrs⟩, hmem, h⟩
    obtain ⟨id', hid, heq⟩ := List.mem_map.mp h
    cases heq
    exact ⟨addrs, mem_entries_iff.mp hmem, by simpa using (List.mem_filter.mp hid).2⟩
  · rintro ⟨addrs, hname, hid⟩
    refine ⟨⟨name, addrs⟩, mem_entries_iff.mpr hname, List.mem_map.mpr ⟨id, ?_, rfl⟩⟩
    rw [List.mem_filter, ← AList.mem_keys, mem_iff_lookup]
    exact ⟨⟨addr, hid⟩, by simpa using hid⟩

/-- The clusters a name is listed in. -/
def clustersOf (name : Text) (s : RouteInfoManager) : List Text :=
  s.clusterAddrTable.keys.filter fun c => name ∈ brokerNames c s

lemma mem_clustersOf {name c : Text} : c ∈ clustersOf name s ↔ name ∈ brokerNames c s := by
  rw [clustersOf, List.mem_filter, ← AList.mem_keys, decide_eq_true_eq, mem_iff_lookup]
  refine ⟨fun h => h.2, fun h => ⟨?_, h⟩⟩
  unfold brokerNames at h
  cases hc : s.clusterAddrTable.lookup c with
  | none => simp [hc] at h
  | some names => exact ⟨names, rfl⟩

/-- The addresses that are alive on a channel. -/
def addrsOn (ch : Channel) (s : RouteInfoManager) : List Text :=
  s.brokerLiveTable.keys.filter fun a =>
    (s.brokerLiveTable.lookup a).any fun info => info.channel == ch

lemma mem_addrsOn {ch : Channel} {addr : Text} :
    addr ∈ addrsOn ch s ↔
      ∃ info, s.brokerLiveTable.lookup addr = some info ∧ info.channel = ch := by
  rw [addrsOn, List.mem_filter, ← AList.mem_keys, mem_iff_lookup]
  cases s.brokerLiveTable.lookup addr <;> simp

/-- No two different elements. -/
def Sole {α : Type} (l : List α) : Prop := ∀ x ∈ l, ∀ y ∈ l, x = y

instance {α : Type} [DecidableEq α] (l : List α) : Decidable (Sole l) :=
  inferInstanceAs (Decidable (∀ x ∈ l, ∀ y ∈ l, x = y))

/-! ### Consistency -/

/-- **The tables fit together.** -/
structure Consistent (s : RouteInfoManager) : Prop where
  live : ∀ name addrs id addr, s.brokerAddrTable.lookup name = some addrs →
    addrs.lookup id = some addr → addr ∈ s.brokerLiveTable
  topicNames : ∀ topic qds, s.topicQueueTable.lookup topic = some qds →
    ∀ qd ∈ qds, qd.brokerName ∈ s.brokerAddrTable
  clusterNames : ∀ c names, s.clusterAddrTable.lookup c = some names →
    ∀ name ∈ names, name ∈ s.brokerAddrTable
  addrs_ne : ∀ name addrs, s.brokerAddrTable.lookup name = some addrs → addrs ≠ ∅
  names_ne : ∀ c names, s.clusterAddrTable.lookup c = some names → names ≠ ∅
  queues_ne : ∀ topic qds, s.topicQueueTable.lookup topic = some qds → qds ≠ []
  once : ∀ topic qds, s.topicQueueTable.lookup topic = some qds →
    (qds.map QueueData.brokerName).Nodup

lemma Consistent.live_of_holds (h : Consistent s) {name : Text} {id : Int64} {addr : Text}
    (hold : Holds s name id addr) : addr ∈ s.brokerLiveTable := by
  obtain ⟨addrs, h1, h2⟩ := holds_iff.mp hold
  exact h.live name addrs id addr h1 h2

lemma Consistent.mem_of_listed (h : Consistent s) {c name : Text}
    (hlist : name ∈ brokerNames c s) : name ∈ s.brokerAddrTable := by
  unfold brokerNames at hlist
  cases hc : s.clusterAddrTable.lookup c with
  | none => simp [hc] at hlist
  | some names =>
    rw [hc, Option.getD_some] at hlist
    exact h.clusterNames c names hc name hlist

lemma Consistent.holds_of_mem (h : Consistent s) {name : Text} (hmem : name ∈ s.brokerAddrTable) :
    ∃ id addr, Holds s name id addr := by
  obtain ⟨addrs, haddrs⟩ := mem_iff_lookup.mp hmem
  obtain ⟨id, addr, hid⟩ := ne_empty_iff.mp (h.addrs_ne name addrs haddrs)
  exact ⟨id, addr, holds_iff.mpr ⟨addrs, haddrs, hid⟩⟩

lemma consistent_new : Consistent newRouteInfoManager := by
  constructor <;> simp [newRouteInfoManager]

/-! ### Topics of a registration -/

/-- The queue data of a topic after a broker has registered it. -/
def updated (name : Text) (c : TopicConfig) (qds : List QueueData) : List QueueData :=
  let kept := qds.filter fun qd => qd.brokerName ≠ name ∨ qd = queueData name c
  if queueData name c ∈ qds then kept else kept ++ [queueData name c]

lemma mem_updated {name : Text} {c : TopicConfig} {qds : List QueueData} {qd : QueueData} :
    qd ∈ updated name c qds ↔ qd = queueData name c ∨ (qd ∈ qds ∧ qd.brokerName ≠ name) := by
  by_cases hq : queueData name c ∈ qds
  · simp only [updated, if_pos hq, List.mem_filter, decide_eq_true_eq]
    constructor
    · rintro ⟨hmem, h | h⟩
      · exact .inr ⟨hmem, h⟩
      · exact .inl h
    · rintro (rfl | ⟨hmem, h⟩)
      · exact ⟨hq, .inr rfl⟩
      · exact ⟨hmem, .inl h⟩
  · simp only [updated, if_neg hq, List.mem_append, List.mem_filter, decide_eq_true_eq,
      List.mem_singleton]
    constructor
    · rintro (⟨hmem, h | h⟩ | h)
      · exact .inr ⟨hmem, h⟩
      · exact .inl h
      · exact .inl h
    · rintro (rfl | ⟨hmem, h⟩)
      · exact .inr rfl
      · exact .inl ⟨hmem, .inl h⟩

lemma nodup_updated {name : Text} {c : TopicConfig} {qds : List QueueData}
    (h : (qds.map QueueData.brokerName).Nodup) :
    ((updated name c qds).map QueueData.brokerName).Nodup := by
  have hkept : ((qds.filter fun qd => qd.brokerName ≠ name ∨ qd = queueData name c).map
      QueueData.brokerName).Nodup := h.sublist (List.filter_sublist.map _)
  by_cases hq : queueData name c ∈ qds
  · simpa only [updated, if_pos hq] using hkept
  · simp only [updated, if_neg hq, List.map_append, List.map_cons, List.map_nil]
    refine List.Nodup.append hkept (List.nodup_singleton _) ?_
    simp only [List.disjoint_singleton, List.mem_map, List.mem_filter, decide_eq_true_eq,
      not_exists, not_and]
    rintro qd ⟨hmem, h' | rfl⟩ heq
    · exact h' heq
    · exact hq hmem

lemma lookup_createAndUpdate (name topic t : Text) (c : TopicConfig)
    (table : Table Text (List QueueData)) :
    (createAndUpdateQueueData name topic c table).lookup t =
      if t = topic then some (updated name c ((table.lookup topic).getD []))
      else table.lookup t := by
  unfold createAndUpdateQueueData
  cases h : table.lookup topic with
  | none => simp [updated]
  | some qds =>
    by_cases hq : queueData name c ∈ qds
    · simp [updated, hq]
    · simp [updated, hq]

lemma lookup_updateTopics (name t : Text) (tcTable : TopicConfigTable)
    (table : Table Text (List QueueData)) :
    (updateTopics name tcTable table).lookup t =
      match tcTable.lookup t with
      | some c => some (updated name c ((table.lookup t).getD []))
      | none => table.lookup t := by
  obtain ⟨entries, hnodup⟩ := tcTable
  change (entries.foldl _ table).lookup t = match entries.dlookup t with
    | some c => _
    | none => _
  induction entries generalizing table with
  | nil => simp
  | cons e l ih =>
    obtain ⟨topic, c⟩ := e
    rw [List.foldl_cons, ih _ (List.nodupKeys_cons.mp hnodup).2]
    by_cases ht : t = topic
    · subst ht
      have hnone : l.dlookup t = none := List.dlookup_eq_none.mpr (List.nodupKeys_cons.mp hnodup).1
      simp [hnone, lookup_createAndUpdate]
    · rw [List.dlookup_cons_ne _ _ ht, lookup_createAndUpdate, if_neg ht]

/-- A registration leaves a topic as it is, or updates its own queue data there. -/
lemma registeredTopics_cases (r : Registration) (s : RouteInfoManager) (t : Text) :
    (registeredTopics r s).lookup t = s.topicQueueTable.lookup t ∨
      ∃ c, (registeredTopics r s).lookup t =
        some (updated r.brokerName c ((s.topicQueueTable.lookup t).getD [])) := by
  unfold registeredTopics
  split_ifs
  · cases r.topicConfigTable with
    | none => exact .inl rfl
    | some tcTable =>
      simp only [lookup_updateTopics]
      cases tcTable.lookup t with
      | none => exact .inl rfl
      | some c => exact .inr ⟨c, rfl⟩
  · exact .inl rfl

lemma holds_register {r : Registration} {name : Text} {id : Int64} {addr : Text} :
    Holds (register r s) name id addr ↔
      if name = r.brokerName ∧ id = r.brokerId then addr = r.brokerAddr
      else Holds s name id addr := by
  by_cases hname : name = r.brokerName
  · subst hname
    by_cases hid : id = r.brokerId
    · simp [Holds, brokerAddrs, register, hid, eq_comm]
    · simp [Holds, brokerAddrs, register, hid]
  · simp [Holds, brokerAddrs, register, hname]

lemma mem_brokerAddrTable_register {r : Registration} {name : Text} :
    name ∈ (register r s).brokerAddrTable ↔ name = r.brokerName ∨ name ∈ s.brokerAddrTable := by
  simp [register]

lemma addrs_ne_register
    (hne : ∀ name addrs, s.brokerAddrTable.lookup name = some addrs → addrs ≠ ∅)
    (r : Registration) (name : Text) (addrs : BrokerAddrs)
    (hname : (register r s).brokerAddrTable.lookup name = some addrs) : addrs ≠ ∅ := by
  simp only [register, lookup_insert_ite] at hname
  split_ifs at hname
  · obtain rfl := Option.some.inj hname
    exact ne_empty_iff.mpr ⟨r.brokerId, r.brokerAddr, by simp⟩
  · exact hne name addrs hname

lemma queues_ne_register
    (hne : ∀ topic qds, s.topicQueueTable.lookup topic = some qds → qds ≠ [])
    (r : Registration) (t : Text) (qds : List QueueData)
    (ht : (register r s).topicQueueTable.lookup t = some qds) : qds ≠ [] := by
  rcases registeredTopics_cases r s t with hsame | ⟨c, hupd⟩
  · exact hne t qds (hsame ▸ ht)
  · obtain rfl := Option.some.inj (ht.symm.trans hupd)
    exact List.ne_nil_of_mem (mem_updated.mpr (.inl rfl))

lemma once_register
    (honce : ∀ topic qds, s.topicQueueTable.lookup topic = some qds →
      (qds.map QueueData.brokerName).Nodup)
    (r : Registration) (t : Text) (qds : List QueueData)
    (ht : (register r s).topicQueueTable.lookup t = some qds) :
    (qds.map QueueData.brokerName).Nodup := by
  rcases registeredTopics_cases r s t with hsame | ⟨c, hupd⟩
  · exact honce t qds (hsame ▸ ht)
  · obtain rfl := Option.some.inj (ht.symm.trans hupd)
    apply nodup_updated
    cases hold : s.topicQueueTable.lookup t with
    | none => simp
    | some old => simpa using honce t old hold

/-- A registration keeps the tables together. -/
lemma Consistent.register (h : Consistent s) (r : Registration) :
    Consistent (RouteInfo.register r s) where
  live name addrs id addr h1 h2 := by
    have hold : Holds (RouteInfo.register r s) name id addr := holds_iff.mpr ⟨addrs, h1, h2⟩
    rw [holds_register] at hold
    simp only [RouteInfo.register, AList.mem_insert]
    split_ifs at hold with hslot
    · exact .inl hold
    · exact .inr (h.live_of_holds hold)
  topicNames t qds ht qd hqd := by
    rw [mem_brokerAddrTable_register]
    rcases registeredTopics_cases r s t with hsame | ⟨c, hupd⟩
    · exact .inr (h.topicNames t qds (hsame ▸ ht) qd hqd)
    · obtain rfl := Option.some.inj (ht.symm.trans hupd)
      rcases mem_updated.mp hqd with rfl | ⟨hmem, -⟩
      · exact .inl rfl
      · cases hold : s.topicQueueTable.lookup t with
        | none => simp [hold] at hmem
        | some old => exact .inr (h.topicNames t old hold qd (by simpa [hold] using hmem))
  clusterNames c names hc name hname := by
    rw [mem_brokerAddrTable_register]
    simp only [RouteInfo.register, lookup_insert_ite] at hc
    split_ifs at hc with hcl
    · obtain rfl := Option.some.inj hc
      rcases Finset.mem_insert.mp hname with h' | h'
      · exact .inl h'
      · exact .inr (h.mem_of_listed h')
    · exact .inr (h.clusterNames c names hc name hname)
  addrs_ne := addrs_ne_register h.addrs_ne r
  names_ne c names hc := by
    simp only [RouteInfo.register, lookup_insert_ite] at hc
    split_ifs at hc
    · obtain rfl := Option.some.inj hc
      exact Finset.insert_ne_empty _ _
    · exact h.names_ne c names hc
  queues_ne := queues_ne_register h.queues_ne r
  once := once_register h.once r

/-! ### Removals -/

/-- An address is forgotten that has no slot. -/
def dropAddr (addr : Text) (s : RouteInfoManager) : RouteInfoManager :=
  { s with
    brokerLiveTable := s.brokerLiveTable.erase addr
    filterServerTable := s.filterServerTable.erase addr }

/-- An address is forgotten with one of its slots; `clusters` is what is left of the clusters
when the name goes. -/
def dropSlot (addr name : Text) (id : Int64) (clusters : Table Text (Finset Text))
    (s : RouteInfoManager) : RouteInfoManager :=
  if (brokerAddrs name s).erase id = ∅ then
    { dropAddr addr s with
      brokerAddrTable := s.brokerAddrTable.erase name
      clusterAddrTable := clusters
      topicQueueTable := removeTopicByBrokerName (some name) s.topicQueueTable }
  else
    { dropAddr addr s with
      brokerAddrTable := s.brokerAddrTable.insert name ((brokerAddrs name s).erase id) }

lemma unregisterBroker_eq (c addr name : Text) (id : Int64) (s : RouteInfoManager) :
    unregisterBroker c addr name id s =
      if name ∈ s.brokerAddrTable then
        dropSlot addr name id (removeName c name s.clusterAddrTable) s
      else dropAddr addr s := by
  unfold unregisterBroker
  cases h : s.brokerAddrTable.lookup name with
  | none =>
    rw [if_neg (AList.lookup_eq_none.mp h)]
    rfl
  | some addrs =>
    rw [if_pos (mem_iff_lookup.mpr ⟨addrs, h⟩)]
    simp [dropSlot, dropAddr, brokerAddrs, h]

lemma find_id_eq_none {addrs : BrokerAddrs} {pref : List Int64} {addr : Text} :
    (order pref addrs).find? (fun id => addrs.lookup id = some addr) = none ↔
      ∀ id, addrs.lookup id ≠ some addr := by
  simp only [List.find?_eq_none, mem_order, decide_eq_true_eq]
  exact ⟨fun h id hid => h id (mem_iff_lookup.mpr ⟨addr, hid⟩) hid, fun h id _ => h id⟩

/-- The walk removes the first slot of the address, if there is one. -/
lemma removeAddr_cases (addr : Text) (ids : Text → List Int64) (names : List Text) (b : Bool)
    (table : Table Text BrokerAddrs) (hne : ∀ name ∈ names, (table.lookup name).getD ∅ ≠ ∅) :
    (∀ name ∈ names, ∀ id, ((table.lookup name).getD ∅).lookup id ≠ some addr) ∧
        removeAddr addr ids names b table = ⟨none, b, table⟩ ∨
      ∃ name ∈ names, ∃ id, ((table.lookup name).getD ∅).lookup id = some addr ∧
        removeAddr addr ids names b table =
          if ((table.lookup name).getD ∅).erase id = ∅ then ⟨some name, true, table.erase name⟩
          else ⟨some name, b, table.insert name (((table.lookup name).getD ∅).erase id)⟩ := by
  induction names with
  | nil => exact .inl ⟨by simp, rfl⟩
  | cons name names ih =>
    rw [removeAddr]
    cases hfind : (order (ids name) ((table.lookup name).getD ∅)).find?
        (fun id => ((table.lookup name).getD ∅).lookup id = some addr) with
    | some id =>
      have hid : ((table.lookup name).getD ∅).lookup id = some addr := by
        simpa using List.find?_some hfind
      exact .inr ⟨name, by simp, id, hid, rfl⟩
    | none =>
      have hnone := find_id_eq_none.mp hfind
      simp only [if_neg (hne name (by simp))]
      rcases ih fun n hn => hne n (by simp [hn]) with ⟨hall, heq⟩ | ⟨n, hn, id, hid, heq⟩
      · refine .inl ⟨fun n hn => ?_, heq⟩
        rcases List.mem_cons.mp hn with rfl | hn
        · exact hnone
        · exact hall n hn
      · exact .inr ⟨n, by simp [hn], id, hid, heq⟩

lemma removeBrokerAddr_cases (hne : ∀ name addrs, s.brokerAddrTable.lookup name = some addrs →
    addrs ≠ ∅) {addr : Text} (haddr : addr ≠ []) (walk : Walk) :
    (∀ name id, ¬ Holds s name id addr) ∧ removeBrokerAddr addr walk s = dropAddr addr s ∨
      ∃ name id, Holds s name id addr ∧ removeBrokerAddr addr walk s =
        dropSlot addr name id (removeNameOnce walk.clusters name s.clusterAddrTable) s := by
  have hne' : ∀ name ∈ order walk.names s.brokerAddrTable,
      (s.brokerAddrTable.lookup name).getD ∅ ≠ ∅ := by
    intro name hname
    obtain ⟨addrs, haddrs⟩ := mem_iff_lookup.mp (mem_order.mp hname)
    simpa [haddrs] using hne name addrs haddrs
  rcases removeAddr_cases addr walk.ids _ false _ hne' with ⟨hall, heq⟩ | ⟨name, -, id, hid, heq⟩
  · refine .inl ⟨fun name id hold => ?_, ?_⟩
    · obtain ⟨addrs, haddrs, -⟩ := holds_iff.mp hold
      exact hall name (mem_order.mpr (mem_iff_lookup.mpr ⟨addrs, haddrs⟩)) id hold
    · simp [removeBrokerAddr, haddr, heq, dropAddr]
  · refine .inr ⟨name, id, hid, ?_⟩
    by_cases hlast : ((s.brokerAddrTable.lookup name).getD ∅).erase id = ∅
    · rw [if_pos hlast] at heq
      simp [removeBrokerAddr, haddr, heq, dropSlot, dropAddr, brokerAddrs, hlast]
    · rw [if_neg hlast] at heq
      simp [removeBrokerAddr, haddr, heq, dropSlot, dropAddr, brokerAddrs, hlast]

lemma brokerAddrs_dropSlot (addr name : Text) (id : Int64) (clusters : Table Text (Finset Text))
    (n : Text) :
    brokerAddrs n (dropSlot addr name id clusters s) =
      if n = name then (brokerAddrs name s).erase id else brokerAddrs n s := by
  by_cases hlast : (brokerAddrs name s).erase id = ∅
  · rw [dropSlot, if_pos hlast, hlast]
    by_cases hn : n = name <;> simp [brokerAddrs, hn]
  · rw [dropSlot, if_neg hlast]
    by_cases hn : n = name
    · simp [brokerAddrs, hn]
    · simp [brokerAddrs, hn]

lemma holds_dropSlot {addr name : Text} {id : Int64} {clusters : Table Text (Finset Text)}
    {n : Text} {i : Int64} {a : Text} :
    Holds (dropSlot addr name id clusters s) n i a ↔ Holds s n i a ∧ (n, i) ≠ (name, id) := by
  unfold Holds
  rw [brokerAddrs_dropSlot]
  by_cases hn : n = name
  · subst hn
    by_cases hi : i = id <;> simp [hi]
  · simp [hn]

lemma live_dropSlot (addr name : Text) (id : Int64) (clusters : Table Text (Finset Text)) :
    (dropSlot addr name id clusters s).brokerLiveTable = s.brokerLiveTable.erase addr := by
  unfold dropSlot
  split_ifs <;> rfl

lemma filters_dropSlot (addr name : Text) (id : Int64) (clusters : Table Text (Finset Text)) :
    (dropSlot addr name id clusters s).filterServerTable = s.filterServerTable.erase addr := by
  unfold dropSlot
  split_ifs <;> rfl

/-- A name stays unless its last address goes. -/
lemma mem_dropSlot {addr name : Text} {id : Int64} {clusters : Table Text (Finset Text)}
    {n : Text} :
    n ∈ (dropSlot addr name id clusters s).brokerAddrTable ↔
      n ∈ s.brokerAddrTable ∧ (n = name → (brokerAddrs name s).erase id ≠ ∅) := by
  by_cases hlast : (brokerAddrs name s).erase id = ∅
  · simp only [dropSlot, hlast, if_true, AList.mem_erase, ne_eq, not_true_eq_false, imp_false]
    exact and_comm
  · simp only [dropSlot, hlast, if_false, AList.mem_insert, ne_eq, not_false_eq_true, implies_true,
      and_true]
    refine ⟨?_, .inr⟩
    rintro (rfl | h)
    · by_contra hn
      rw [← AList.lookup_eq_none] at hn
      exact hlast (by simp [brokerAddrs, hn, eq_empty_iff])
    · exact h

lemma lookup_removeTopic {name : Option Text} {table : Table Text (List QueueData)} {t : Text}
    {qds : List QueueData} (h : (removeTopicByBrokerName name table).lookup t = some qds) :
    qds ≠ [] ∧ ∃ old, table.lookup t = some old ∧
      qds = old.filter fun qd => some qd.brokerName ≠ name := by
  rw [removeTopicByBrokerName, lookup_mapMaybe, Option.bind_eq_some_iff] at h
  obtain ⟨old, hold, h⟩ := h
  split_ifs at h with hnil
  obtain rfl := Option.some.inj h
  exact ⟨hnil, old, hold, rfl⟩

/-- A topic after a removal has a part of the queue data it had, and none of a name that went. -/
lemma topics_dropSlot {addr name : Text} {id : Int64} {clusters : Table Text (Finset Text)}
    {t : Text} {qds : List QueueData}
    (hne : ∀ topic qds, s.topicQueueTable.lookup topic = some qds → qds ≠ [])
    (h : (dropSlot addr name id clusters s).topicQueueTable.lookup t = some qds) :
    qds ≠ [] ∧ ∃ old, s.topicQueueTable.lookup t = some old ∧ qds.Sublist old ∧
      ((brokerAddrs name s).erase id = ∅ → ∀ qd ∈ qds, qd.brokerName ≠ name) := by
  by_cases hlast : (brokerAddrs name s).erase id = ∅
  · rw [dropSlot, if_pos hlast] at h
    obtain ⟨h1, old, hold, rfl⟩ := lookup_removeTopic h
    refine ⟨h1, old, hold, List.filter_sublist, fun _ qd hqd => ?_⟩
    simpa using (List.mem_filter.mp hqd).2
  · rw [dropSlot, if_neg hlast] at h
    exact ⟨hne t qds h, qds, h, .refl _, fun h' => absurd h' hlast⟩

/-- What is left of the clusters lists nothing new, and not the name. -/
def Unlisted (name : Text) (clusters : Table Text (Finset Text)) (s : RouteInfoManager) : Prop :=
  ∀ c names, clusters.lookup c = some names →
    names ≠ ∅ ∧ name ∉ names ∧ ∀ n ∈ names, n ∈ brokerNames c s

lemma unlisted_removeName (h : Consistent s) {c name : Text}
    (hall : ∀ c' ∈ clustersOf name s, c' = c) :
    Unlisted name (removeName c name s.clusterAddrTable) s := by
  intro c' names hnames
  have hother : ∀ names, s.clusterAddrTable.lookup c' = some names → c' ≠ c →
      names ≠ ∅ ∧ name ∉ names ∧ ∀ n ∈ names, n ∈ brokerNames c' s := by
    intro names hnames hc
    refine ⟨h.names_ne c' names hnames, fun hmem => hc (hall c' ?_), fun n hn => ?_⟩
    · rw [mem_clustersOf]
      simpa [brokerNames, hnames] using hmem
    · simpa [brokerNames, hnames] using hn
  unfold removeName at hnames
  cases hc : s.clusterAddrTable.lookup c with
  | none =>
    rw [hc] at hnames
    refine hother names hnames ?_
    rintro rfl
    simp [hc] at hnames
  | some nameSet =>
    simp only [hc] at hnames
    split_ifs at hnames with hempty
    · simp only [lookup_erase_ite] at hnames
      split_ifs at hnames with hcc
      exact hother names hnames hcc
    · simp only [lookup_insert_ite] at hnames
      split_ifs at hnames with hcc
      · obtain rfl := Option.some.inj hnames
        subst hcc
        refine ⟨hempty, Finset.notMem_erase name nameSet, fun n hn => ?_⟩
        simpa [brokerNames, hc] using Finset.mem_of_mem_erase hn
      · exact hother names hnames hcc

lemma unlisted_removeNameOnce (h : Consistent s) {pref : List Text} {name : Text}
    (hsole : Sole (clustersOf name s)) :
    Unlisted name (removeNameOnce pref name s.clusterAddrTable) s := by
  unfold removeNameOnce
  cases hfind : (order pref s.clusterAddrTable).find?
      (fun c => name ∈ (s.clusterAddrTable.lookup c).getD ∅) with
  | none =>
    intro c names hnames
    rw [List.find?_eq_none] at hfind
    refine ⟨h.names_ne c names hnames, ?_, fun n hn => by simpa [brokerNames, hnames] using hn⟩
    simpa [hnames] using hfind c (mem_order.mpr (mem_iff_lookup.mpr ⟨names, hnames⟩))
  | some c =>
    have hc : c ∈ clustersOf name s := by
      rw [mem_clustersOf]
      simpa [brokerNames] using List.find?_some hfind
    exact unlisted_removeName h fun c' hc' => hsole c' hc' c hc

lemma addrs_ne_dropSlot {addr name : Text} {id : Int64} {clusters : Table Text (Finset Text)}
    (hne : ∀ name addrs, s.brokerAddrTable.lookup name = some addrs → addrs ≠ ∅) (n : Text)
    (addrs : BrokerAddrs)
    (hn : (dropSlot addr name id clusters s).brokerAddrTable.lookup n = some addrs) :
    addrs ≠ ∅ := by
  by_cases hlast : (brokerAddrs name s).erase id = ∅
  · rw [dropSlot, if_pos hlast, lookup_erase_ite] at hn
    split_ifs at hn
    exact hne n addrs hn
  · rw [dropSlot, if_neg hlast, lookup_insert_ite] at hn
    split_ifs at hn
    · exact (Option.some.inj hn) ▸ hlast
    · exact hne n addrs hn

/-- The address is in no other slot, and the name, if it goes, in no cluster. -/
lemma Consistent.dropSlot (h : Consistent s) {addr name : Text} {id : Int64}
    {clusters : Table Text (Finset Text)} (hslots : ∀ p ∈ slotsOf addr s, p = (name, id))
    (hclusters : (brokerAddrs name s).erase id = ∅ → Unlisted name clusters s) :
    Consistent (RouteTables.dropSlot addr name id clusters s) where
  live n addrs i a h1 h2 := by
    obtain ⟨hold, hne⟩ := holds_dropSlot.mp (holds_iff.mpr ⟨addrs, h1, h2⟩)
    rw [live_dropSlot, AList.mem_erase]
    refine ⟨?_, h.live_of_holds hold⟩
    rintro rfl
    exact hne (hslots (n, i) (mem_slotsOf.mpr hold))
  topicNames t qds ht qd hqd := by
    obtain ⟨-, old, hold, hsub, hgone⟩ := topics_dropSlot h.queues_ne ht
    rw [mem_dropSlot]
    exact ⟨h.topicNames t old hold qd (hsub.subset hqd), fun heq hlast => hgone hlast qd hqd heq⟩
  clusterNames c names hc n hn := by
    rw [mem_dropSlot]
    by_cases hlast : (brokerAddrs name s).erase id = ∅
    · rw [RouteTables.dropSlot, if_pos hlast] at hc
      obtain ⟨-, hnot, hsub⟩ := hclusters hlast c names hc
      refine ⟨h.mem_of_listed (hsub n hn), ?_⟩
      rintro rfl
      exact absurd hn hnot
    · rw [RouteTables.dropSlot, if_neg hlast] at hc
      exact ⟨h.clusterNames c names hc n hn, fun _ => hlast⟩
  addrs_ne := addrs_ne_dropSlot h.addrs_ne
  names_ne c names hc := by
    by_cases hlast : (brokerAddrs name s).erase id = ∅
    · rw [RouteTables.dropSlot, if_pos hlast] at hc
      exact (hclusters hlast c names hc).1
    · rw [RouteTables.dropSlot, if_neg hlast] at hc
      exact h.names_ne c names hc
  queues_ne t qds ht := (topics_dropSlot h.queues_ne ht).1
  once t qds ht := by
    obtain ⟨-, old, hold, hsub, -⟩ := topics_dropSlot h.queues_ne ht
    exact (h.once t old hold).sublist (hsub.map _)

/-- Forgetting an address that has no slot. -/
lemma Consistent.dropAddr (h : Consistent s) {addr : Text}
    (hnone : ∀ name id, ¬ Holds s name id addr) : Consistent (RouteTables.dropAddr addr s) where
  live n addrs i a h1 h2 := by
    have hold : Holds s n i a := holds_iff.mpr ⟨addrs, h1, h2⟩
    simp only [RouteTables.dropAddr, AList.mem_erase]
    refine ⟨?_, h.live_of_holds hold⟩
    rintro rfl
    exact hnone n i hold
  topicNames := h.topicNames
  clusterNames := h.clusterNames
  addrs_ne := h.addrs_ne
  names_ne := h.names_ne
  queues_ne := h.queues_ne
  once := h.once

/-! ### Runs -/

inductive Action
  | registerBroker (r : Registration)
  | unregisterBroker (clusterName brokerAddr brokerName : Text) (brokerId : Int64)
  | onChannelDestroy (remoteAddr : Option Text) (channel : Option Channel) (walk : Walk)
  | scanNotActiveBroker (pref : List Text) (walk : Text → Walk) (now : Text → Int64)

/-- The addresses that have registered and have not been unregistered, destroyed or expired
since, with the channel and the time of their last registration. -/
abbrev Registered := Table Text (Channel × Int64)

/-- A destroyed channel is the end of the addresses registered on it; if there are none, of the
remote address. -/
def Registered.destroy (remoteAddr : Option Text) (channel : Option Channel) (g : Registered) :
    Registered :=
  if ∃ e ∈ g.entries, some e.2.1 = channel then
    mapMaybe (fun _ p => if some p.1 = channel then none else some p) g
  else remoteAddr.elim g fun addr => g.erase addr

def Registered.expire (now : Text → Int64) (g : Registered) : Registered :=
  mapMaybe (fun a p => if p.2 + BrokerChannelExpiredTime < now a then none else some p) g

structure NameServer where
  routes : RouteInfoManager
  registered : Registered

def act (s : RouteInfoManager) : Action → RouteInfoManager
  | .registerBroker r => (registerBroker r s).2
  | .unregisterBroker c addr name id => unregisterBroker c addr name id s
  | .onChannelDestroy remoteAddr channel walk => onChannelDestroy remoteAddr channel walk s
  | .scanNotActiveBroker pref walk now => scanNotActiveBroker pref walk now s

def Registered.after (g : Registered) : Action → Registered
  | .registerBroker r => g.insert r.brokerAddr (r.channel, r.now)
  | .unregisterBroker _ addr _ _ => g.erase addr
  | .onChannelDestroy remoteAddr channel _ => g.destroy remoteAddr channel
  | .scanNotActiveBroker _ _ now => g.expire now

def step (s : NameServer) (a : Action) : Option NameServer :=
  some ⟨act s.routes a, s.registered.after a⟩

def newNameServer : NameServer := ⟨newRouteInfoManager, ∅⟩

/-! ### Where removals are complete -/

/-- The addresses a destroyed channel stands for. -/
def destroyed (remoteAddr : Option Text) (channel : Option Channel) (s : RouteInfoManager) :
    List Text :=
  match channel with
  | none => remoteAddr.toList
  | some ch => if addrsOn ch s = [] then remoteAddr.toList else addrsOn ch s

/-- One slot to remove, and one listing of the name if that was its last address. -/
def Removable (addr : Text) (s : RouteInfoManager) : Prop :=
  addr ≠ [] ∧ Sole (slotsOf addr s) ∧
    ∀ p ∈ slotsOf addr s, (brokerAddrs p.1 s).erase p.2 = ∅ → Sole (clustersOf p.1 s)

def expiredAddrs (now : Text → Int64) (s : RouteInfoManager) : List Text :=
  s.brokerLiveTable.keys.filter fun a => (s.brokerLiveTable.lookup a).any (expired (now a))

/-- No address of the name is left after a scan. -/
def Expires (now : Text → Int64) (name : Text) (s : RouteInfoManager) : Prop :=
  ∀ id ∈ (brokerAddrs name s).keys, ((brokerAddrs name s).lookup id).all
    (· ∈ expiredAddrs now s)

/-- Every address that expires is alone on its channel, in one slot, and its name in one cluster
if the name goes. -/
def ScanComplete (now : Text → Int64) (s : RouteInfoManager) : Prop :=
  ∀ addr ∈ expiredAddrs now s, addr ≠ [] ∧ Sole (slotsOf addr s) ∧
    (∀ info ∈ s.brokerLiveTable.lookup addr, Sole (addrsOn info.channel s)) ∧
    ∀ p ∈ slotsOf addr s, Expires now p.1 s → Sole (clustersOf p.1 s)

/-- **Removals find everything there is to remove.** -/
def Complete (s : NameServer) : Action → Prop
  | .registerBroker _ => True
  | .unregisterBroker c addr name id =>
    (∀ p ∈ slotsOf addr s.routes, p = (name, id)) ∧
      ((brokerAddrs name s.routes).erase id = ∅ → ∀ c' ∈ clustersOf name s.routes, c' = c)
  | .onChannelDestroy remoteAddr channel _ =>
    Sole (destroyed remoteAddr channel s.routes) ∧
      ∀ addr ∈ destroyed remoteAddr channel s.routes, addr ∈ s.routes.brokerLiveTable →
        Removable addr s.routes
  | .scanNotActiveBroker _ _ now => ScanComplete now s.routes

/-! ### Removals keep the tables together -/

/-- The tables fit together, filter servers belong to addresses that are alive. -/
structure Sound (s : RouteInfoManager) : Prop where
  consistent : Consistent s
  filters : ∀ addr ∈ s.filterServerTable, addr ∈ s.brokerLiveTable

/-- `s'` is `s` without the address. -/
structure Forgets (addr : Text) (s s' : RouteInfoManager) : Prop where
  sound : Sound s'
  live : s'.brokerLiveTable = s.brokerLiveTable.erase addr
  holds : ∀ name id a, Holds s' name id a ↔ Holds s name id a ∧ a ≠ addr
  listed : ∀ name c, c ∈ clustersOf name s' → c ∈ clustersOf name s

lemma Sound.dropAddr (h : Sound s) {addr : Text} (hnone : ∀ name id, ¬ Holds s name id addr) :
    Forgets addr s (RouteTables.dropAddr addr s) where
  sound := by
    refine ⟨h.consistent.dropAddr hnone, fun a ha => ?_⟩
    simp only [RouteTables.dropAddr, AList.mem_erase] at ha ⊢
    exact ⟨ha.1, h.filters a ha.2⟩
  live := rfl
  holds name id a := by
    refine ⟨fun hold => ⟨hold, ?_⟩, fun hold => hold.1⟩
    rintro rfl
    exact hnone name id hold
  listed _ _ hc := hc

lemma Sound.dropSlot (h : Sound s) {addr name : Text} {id : Int64}
    {clusters : Table Text (Finset Text)} (hslots : ∀ p ∈ slotsOf addr s, p = (name, id))
    (hclusters : (brokerAddrs name s).erase id = ∅ → Unlisted name clusters s) :
    Sound (RouteTables.dropSlot addr name id clusters s) := by
  refine ⟨h.consistent.dropSlot hslots hclusters, fun a ha => ?_⟩
  rw [live_dropSlot]
  rw [filters_dropSlot] at ha
  simp only [AList.mem_erase] at ha ⊢
  exact ⟨ha.1, h.filters a ha.2⟩

lemma Sound.removeBrokerAddr (h : Sound s) {addr : Text}
    (hr : addr ∈ s.brokerLiveTable → Removable addr s) (walk : Walk) :
    Forgets addr s (RouteInfo.removeBrokerAddr addr walk s) := by
  by_cases hempty : addr = []
  · have hdead : addr ∉ s.brokerLiveTable := fun hlive => (hr hlive).1 hempty
    refine ⟨?_, ?_, fun name id a => ?_, fun name c hc => ?_⟩ <;>
      simp only [RouteInfo.removeBrokerAddr, hempty, if_true] at *
    · exact h
    · exact (erase_of_lookup_none (AList.lookup_eq_none.mpr hdead)).symm
    · refine ⟨fun hold => ⟨hold, ?_⟩, fun hold => hold.1⟩
      rintro rfl
      exact hdead (h.consistent.live_of_holds hold)
    · exact hc
  · rcases removeBrokerAddr_cases h.consistent.addrs_ne hempty walk with
      ⟨hnone, heq⟩ | ⟨name, id, hold, heq⟩
    · rw [heq]
      exact h.dropAddr hnone
    · rw [heq]
      obtain ⟨-, hsole, hlast⟩ := hr (h.consistent.live_of_holds hold)
      have hslot := mem_slotsOf.mpr hold
      have hunlisted : (brokerAddrs name s).erase id = ∅ →
          Unlisted name (removeNameOnce walk.clusters name s.clusterAddrTable) s :=
        fun hl => unlisted_removeNameOnce h.consistent (hlast _ hslot hl)
      refine ⟨h.dropSlot (fun p hp => hsole p hp _ hslot) hunlisted, live_dropSlot .., ?_, ?_⟩
      · intro n i a
        rw [holds_dropSlot]
        refine and_congr_right fun hold' => not_congr ⟨fun heq' => ?_, fun heq' => ?_⟩
        · cases heq'
          exact Option.some.inj (hold'.symm.trans hold)
        · subst heq'
          exact hsole _ (mem_slotsOf.mpr hold') _ hslot
      · intro n c hc
        rw [mem_clustersOf] at hc ⊢
        by_cases hl : (brokerAddrs name s).erase id = ∅
        · rw [RouteTables.dropSlot, if_pos hl] at hc
          simp only [brokerNames] at hc
          cases hlook : (removeNameOnce walk.clusters name s.clusterAddrTable).lookup c with
          | none => simp [hlook] at hc
          | some names =>
            rw [hlook, Option.getD_some] at hc
            exact (hunlisted hl c names hlook).2.2 n hc
        · rwa [RouteTables.dropSlot, if_neg hl] at hc

lemma findBrokerAddr_eq_none {channel : Option Channel} {walk : Walk} :
    findBrokerAddr channel walk s = none ↔ ∀ ch ∈ channel, addrsOn ch s = [] := by
  cases channel with
  | none => simp [findBrokerAddr]
  | some ch =>
    simp only [findBrokerAddr, List.find?_eq_none, mem_order, Option.mem_some_iff, forall_eq',
      List.eq_nil_iff_forall_not_mem, addrsOn, List.mem_filter, ← AList.mem_keys, not_and]

lemma findBrokerAddr_mem {channel : Option Channel} {walk : Walk} {addr : Text}
    (h : findBrokerAddr channel walk s = some addr) : ∃ ch ∈ channel, addr ∈ addrsOn ch s := by
  cases channel with
  | none => simp [findBrokerAddr] at h
  | some ch =>
    refine ⟨ch, rfl, ?_⟩
    rw [addrsOn, List.mem_filter, ← AList.mem_keys]
    have hany := List.find?_some (h : (order walk.live s.brokerLiveTable).find? _ = some addr)
    exact ⟨mem_order.mp (List.mem_of_find?_eq_some h), hany⟩

/-- The search finds an address the channel stands for. -/
lemma brokerAddrFound_mem {remoteAddr : Option Text} {channel : Option Channel} {walk : Walk}
    {addr : Text} (h : brokerAddrFound remoteAddr channel walk s = some addr) :
    addr ∈ destroyed remoteAddr channel s := by
  unfold brokerAddrFound at h
  cases hfind : findBrokerAddr channel walk s with
  | none =>
    rw [hfind, Option.none_or] at h
    have hnone := findBrokerAddr_eq_none.mp hfind
    cases channel with
    | none => simp [destroyed, h]
    | some ch => simp [destroyed, hnone ch rfl, h]
  | some a =>
    rw [hfind, Option.some_or] at h
    obtain rfl := Option.some.inj h
    obtain ⟨ch, rfl, hmem⟩ := findBrokerAddr_mem hfind
    simpa [destroyed, List.ne_nil_of_mem hmem] using hmem

lemma destroyed_eq_nil {remoteAddr : Option Text} {channel : Option Channel} {walk : Walk}
    (h : brokerAddrFound remoteAddr channel walk s = none) :
    destroyed remoteAddr channel s = [] := by
  unfold brokerAddrFound at h
  rw [Option.or_eq_none_iff] at h
  obtain ⟨hfind, rfl⟩ := h
  have hnone := findBrokerAddr_eq_none.mp hfind
  cases channel with
  | none => rfl
  | some ch => simp [destroyed, hnone ch rfl]

lemma mem_expiredAddrs {now : Text → Int64} {addr : Text} :
    addr ∈ expiredAddrs now s ↔
      ∃ info, s.brokerLiveTable.lookup addr = some info ∧ expired (now addr) info := by
  rw [expiredAddrs, List.mem_filter, ← AList.mem_keys, mem_iff_lookup]
  cases s.brokerLiveTable.lookup addr <;> simp

lemma expires_iff {now : Text → Int64} {name : Text} :
    Expires now name s ↔ ∀ id a, Holds s name id a → a ∈ expiredAddrs now s := by
  unfold Expires
  constructor
  · intro h id a hold
    have := h id (AList.mem_keys.mp (mem_iff_lookup.mpr ⟨a, hold⟩))
    simpa [show (brokerAddrs name s).lookup id = some a from hold] using this
  · intro h id _
    cases hid : (brokerAddrs name s).lookup id with
    | none => rfl
    | some a => simpa using h id a hid

/-- What is left to scan after an address has gone. -/
lemma ScanComplete.forgets {now : Text → Int64} {addr : Text} {s' : RouteInfoManager}
    (h : ScanComplete now s) (hf : Forgets addr s s') (haddr : addr ∈ expiredAddrs now s) :
    ScanComplete now s' := by
  have hlive : ∀ a info, s'.brokerLiveTable.lookup a = some info →
      s.brokerLiveTable.lookup a = some info := by
    intro a info ha
    rw [hf.live, lookup_erase_ite] at ha
    split_ifs at ha
    exact ha
  have hexp : ∀ a ∈ expiredAddrs now s', a ∈ expiredAddrs now s := by
    intro a ha
    obtain ⟨info, h1, h2⟩ := mem_expiredAddrs.mp ha
    exact mem_expiredAddrs.mpr ⟨info, hlive a info h1, h2⟩
  have hslots : ∀ a, ∀ p ∈ slotsOf a s', p ∈ slotsOf a s := fun a p hp =>
    mem_slotsOf.mpr ((hf.holds _ _ _).mp (mem_slotsOf.mp hp)).1
  have hon : ∀ ch, ∀ a ∈ addrsOn ch s', a ∈ addrsOn ch s := by
    intro ch a ha
    obtain ⟨info, h1, h2⟩ := mem_addrsOn.mp ha
    exact mem_addrsOn.mpr ⟨info, hlive a info h1, h2⟩
  intro a ha
  obtain ⟨h1, h2, h3, h4⟩ := h a (hexp a ha)
  refine ⟨h1, fun p hp q hq => h2 p (hslots a p hp) q (hslots a q hq), fun info hinfo => ?_,
    fun p hp hexpires => ?_⟩
  · have := h3 info (hlive a info hinfo)
    exact fun b hb c hc => this b (hon _ b hb) c (hon _ c hc)
  · have hall : Expires now p.1 s := by
      rw [expires_iff] at hexpires ⊢
      intro id b hold
      by_cases hb : b = addr
      · exact hb ▸ haddr
      · exact hexp b (hexpires id b ((hf.holds _ _ _).mpr ⟨hold, hb⟩))
    have := h4 p (hslots a p hp) hall
    exact fun c hc c' hc' => this c (hf.listed _ _ hc) c' (hf.listed _ _ hc')

/-- Scanning one address that has expired. -/
lemma Sound.scan_one (h : Sound s) {now : Text → Int64} (hscan : ScanComplete now s) {addr : Text}
    {info : BrokerLiveInfo} (hinfo : s.brokerLiveTable.lookup addr = some info)
    (hexp : expired (now addr) info) (walk : Walk) :
    Forgets addr s (onChannelDestroy (some addr) (some info.channel) walk
      { s with brokerLiveTable := s.brokerLiveTable.erase addr }) := by
  have haddr : addr ∈ expiredAddrs now s := mem_expiredAddrs.mpr ⟨info, hinfo, hexp⟩
  obtain ⟨h1, h2, h3, h4⟩ := hscan addr haddr
  have hr : Removable addr s := by
    refine ⟨h1, h2, fun p hp hlast => h4 p hp (expires_iff.mpr fun id a hold => ?_)⟩
    have hnone := eq_empty_iff.mp hlast id
    rw [lookup_erase_ite] at hnone
    split_ifs at hnone with hid
    · have heq := hold.symm.trans (hid ▸ mem_slotsOf.mp hp)
      exact Option.some.inj heq ▸ haddr
    · exact absurd (hold.symm.trans hnone) (by simp)
  have hfind : findBrokerAddr (some info.channel) walk
      { s with brokerLiveTable := s.brokerLiveTable.erase addr } = none := by
    rw [findBrokerAddr_eq_none]
    rintro ch ⟨⟩
    rw [List.eq_nil_iff_forall_not_mem]
    intro a ha
    obtain ⟨info', h5, h6⟩ := mem_addrsOn.mp ha
    simp only [lookup_erase_ite] at h5
    split_ifs at h5 with hne
    exact hne (h3 info hinfo a (mem_addrsOn.mpr ⟨info', h5, h6⟩) addr
      (mem_addrsOn.mpr ⟨info, hinfo, rfl⟩))
  have heq : onChannelDestroy (some addr) (some info.channel) walk
      { s with brokerLiveTable := s.brokerLiveTable.erase addr } =
        RouteInfo.removeBrokerAddr addr walk s := by
    rw [onChannelDestroy, brokerAddrFound, hfind, Option.none_or]
    simp only [RouteInfo.removeBrokerAddr, h1, if_false]
    rw [erase_of_lookup_none (AList.lookup_erase addr s.brokerLiveTable)]
  rw [heq]
  exact h.removeBrokerAddr (fun _ => hr) walk

/-- **A scan** forgets the addresses that have expired. -/
lemma Sound.scan {now : Text → Int64} (walk : Text → Walk) (rest : List Text) (h : Sound s)
    (hscan : ScanComplete now s) (hnodup : rest.Nodup)
    (hmem : ∀ a ∈ rest, a ∈ s.brokerLiveTable) :
    Sound (RouteInfo.scan walk now rest s) ∧
      ∀ a, (RouteInfo.scan walk now rest s).brokerLiveTable.lookup a =
        if a ∈ rest ∧ a ∈ expiredAddrs now s then none else s.brokerLiveTable.lookup a := by
  induction rest generalizing s with
  | nil => exact ⟨h, fun a => by simp [RouteInfo.scan]⟩
  | cons addr rest ih =>
    obtain ⟨info, hinfo⟩ := mem_iff_lookup.mp (hmem addr (by simp))
    obtain ⟨hnot, hrest⟩ := List.nodup_cons.mp hnodup
    rw [RouteInfo.scan]
    simp only [hinfo]
    by_cases hexp : expired (now addr) info
    · have haddr : addr ∈ expiredAddrs now s := mem_expiredAddrs.mpr ⟨info, hinfo, hexp⟩
      have hf := h.scan_one hscan hinfo hexp (walk addr)
      rw [if_pos hexp, if_pos hf.live]
      obtain ⟨h5, h6⟩ := ih hf.sound (hscan.forgets hf haddr) hrest fun a ha => by
        rw [hf.live, AList.mem_erase]
        exact ⟨fun h' => hnot (h' ▸ ha), hmem a (by simp [ha])⟩
      refine ⟨h5, fun a => ?_⟩
      rw [h6, hf.live, lookup_erase_ite]
      by_cases ha : a = addr
      · simp [ha, haddr]
      · have : a ∈ expiredAddrs now (onChannelDestroy (some addr) (some info.channel) (walk addr)
            { s with brokerLiveTable := s.brokerLiveTable.erase addr }) ↔
              a ∈ expiredAddrs now s := by
          rw [mem_expiredAddrs, mem_expiredAddrs, hf.live, lookup_erase_ite, if_neg ha]
        simp [ha, this]
    · rw [if_neg hexp]
      obtain ⟨h5, h6⟩ := ih h hscan hrest fun a ha => hmem a (by simp [ha])
      refine ⟨h5, fun a => ?_⟩
      rw [h6]
      by_cases ha : a = addr
      · subst ha
        have : a ∉ expiredAddrs now s := by
          rw [mem_expiredAddrs, hinfo]
          simpa using hexp
        simp [this]
      · simp [ha]

/-! ### Every run -/

/-- What a run keeps. -/
structure Inv (s : NameServer) : Prop where
  sound : Sound s.routes
  tracked : ∀ addr, (s.routes.brokerLiveTable.lookup addr).map
    (fun info => (info.channel, info.lastUpdateTimestamp)) = s.registered.lookup addr

lemma Inv.register {s : NameServer} (h : Inv s) (r : Registration) :
    Inv ⟨(registerBroker r s.routes).2, s.registered.insert r.brokerAddr (r.channel, r.now)⟩ where
  sound := by
    refine ⟨h.sound.consistent.register r, fun a ha => ?_⟩
    simp only [registerBroker, RouteInfo.register, AList.mem_insert] at ha ⊢
    by_cases heq : a = r.brokerAddr
    · exact .inl heq
    · refine .inr (h.sound.filters a ?_)
      unfold registeredFilters at ha
      split at ha
      · exact ha
      · exact (AList.mem_erase.mp ha).2
      · exact ((AList.mem_insert _).mp ha).resolve_left heq
  tracked addr := by
    simp only [registerBroker, RouteInfo.register, lookup_insert_ite]
    split_ifs
    · rfl
    · exact h.tracked addr

lemma Inv.unregister {s : NameServer} (h : Inv s) {c addr name : Text} {id : Int64}
    (hslots : ∀ p ∈ slotsOf addr s.routes, p = (name, id))
    (hclusters : (brokerAddrs name s.routes).erase id = ∅ →
      ∀ c' ∈ clustersOf name s.routes, c' = c) :
    Inv ⟨unregisterBroker c addr name id s.routes, s.registered.erase addr⟩ := by
  have hlive : (unregisterBroker c addr name id s.routes).brokerLiveTable =
      s.routes.brokerLiveTable.erase addr := by
    rw [unregisterBroker_eq]
    split_ifs
    · exact live_dropSlot ..
    · rfl
  refine ⟨?_, fun a => ?_⟩
  · simp only [unregisterBroker_eq]
    split_ifs with hname
    · exact h.sound.dropSlot hslots fun hl => unlisted_removeName h.sound.consistent (hclusters hl)
    · refine (h.sound.dropAddr fun n i hold => ?_).sound
      obtain ⟨rfl, rfl⟩ := Prod.mk.inj (hslots (n, i) (mem_slotsOf.mpr hold))
      obtain ⟨addrs, haddrs, -⟩ := holds_iff.mp hold
      exact hname (mem_iff_lookup.mpr ⟨addrs, haddrs⟩)
  · rw [hlive, lookup_erase_ite, lookup_erase_ite]
    split_ifs
    · rfl
    · exact h.tracked a

/-- The addresses on a channel, by their registrations. -/
lemma Inv.mem_addrsOn {s : NameServer} (h : Inv s) {ch : Channel} {addr : Text} :
    addr ∈ addrsOn ch s.routes ↔ ∃ t, s.registered.lookup addr = some (ch, t) := by
  rw [RouteTables.mem_addrsOn, ← h.tracked addr]
  cases s.routes.brokerLiveTable.lookup addr <;> simp

lemma Inv.any_iff {s : NameServer} (h : Inv s) {ch : Channel} :
    (∃ e ∈ s.registered.entries, some e.2.1 = some ch) ↔ addrsOn ch s.routes ≠ [] := by
  constructor
  · rintro ⟨⟨b, ch', t⟩, hb, heq⟩
    cases heq
    exact List.ne_nil_of_mem (h.mem_addrsOn.mpr ⟨t, mem_entries_iff.mp hb⟩)
  · intro hne
    obtain ⟨b, hb⟩ := List.exists_mem_of_ne_nil _ hne
    obtain ⟨t, ht⟩ := h.mem_addrsOn.mp hb
    exact ⟨⟨b, ch, t⟩, mem_entries_iff.mpr ht, rfl⟩

/-- The registrations that end with a channel are those of the addresses it stands for. -/
lemma Inv.registered_destroy {s : NameServer} (h : Inv s) (remoteAddr : Option Text)
    (channel : Option Channel) (a : Text) :
    (s.registered.destroy remoteAddr channel).lookup a =
      if a ∈ destroyed remoteAddr channel s.routes then none else s.registered.lookup a := by
  have hremote : (remoteAddr.elim s.registered fun addr => s.registered.erase addr).lookup a =
      if a ∈ remoteAddr.toList then none else s.registered.lookup a := by
    cases remoteAddr with
    | none => simp
    | some addr => simp [lookup_erase_ite]
  unfold Registered.destroy
  cases channel with
  | none => simpa [destroyed] using hremote
  | some ch =>
    by_cases hany : addrsOn ch s.routes = []
    · rw [if_neg (h.any_iff.not.mpr (not_not.mpr hany)), hremote, destroyed, if_pos hany]
    · have hd : destroyed remoteAddr (some ch) s.routes = addrsOn ch s.routes := if_neg hany
      rw [if_pos (h.any_iff.mpr hany), lookup_mapMaybe, hd]
      split_ifs with hmem
      · obtain ⟨t, ht⟩ := h.mem_addrsOn.mp hmem
        simp [ht]
      · cases hreg : s.registered.lookup a with
        | none => rfl
        | some p =>
          have hp : p.1 ≠ ch := fun hp => hmem (h.mem_addrsOn.mpr ⟨p.2, by rw [hreg, ← hp]⟩)
          simp [hp]

lemma Inv.destroy {s : NameServer} (h : Inv s) {remoteAddr : Option Text}
    {channel : Option Channel} (hsole : Sole (destroyed remoteAddr channel s.routes))
    (hr : ∀ addr ∈ destroyed remoteAddr channel s.routes, addr ∈ s.routes.brokerLiveTable →
      Removable addr s.routes) (walk : Walk) :
    Inv ⟨onChannelDestroy remoteAddr channel walk s.routes,
      s.registered.destroy remoteAddr channel⟩ := by
  cases hfound : brokerAddrFound remoteAddr channel walk s.routes with
  | none =>
    have hnil := destroyed_eq_nil hfound
    refine ⟨?_, fun a => ?_⟩
    · simpa [onChannelDestroy, hfound] using h.sound
    · rw [h.registered_destroy, hnil]
      simpa [onChannelDestroy, hfound] using h.tracked a
  | some addr =>
    have hmem := brokerAddrFound_mem hfound
    have hf := h.sound.removeBrokerAddr (hr addr hmem) walk
    have heq : onChannelDestroy remoteAddr channel walk s.routes =
        RouteInfo.removeBrokerAddr addr walk s.routes := by simp [onChannelDestroy, hfound]
    refine ⟨heq ▸ hf.sound, fun a => ?_⟩
    have hiff : a ∈ destroyed remoteAddr channel s.routes ↔ a = addr :=
      ⟨fun ha => hsole a ha addr hmem, fun ha => ha ▸ hmem⟩
    simp only [heq, hf.live, lookup_erase_ite, h.registered_destroy, hiff]
    split_ifs
    · rfl
    · exact h.tracked a

lemma Inv.scan {s : NameServer} (h : Inv s) {now : Text → Int64}
    (hscan : ScanComplete now s.routes) (pref : List Text) (walk : Text → Walk) :
    Inv ⟨scanNotActiveBroker pref walk now s.routes, s.registered.expire now⟩ := by
  obtain ⟨h1, h2⟩ := h.sound.scan walk (order pref s.routes.brokerLiveTable) hscan
    (nodup_order pref _) fun a ha => mem_order.mp ha
  refine ⟨h1, fun a => ?_⟩
  rw [scanNotActiveBroker, h2, Registered.expire, lookup_mapMaybe, ← h.tracked a]
  split_ifs with hexp
  · obtain ⟨info, hinfo, he⟩ := mem_expiredAddrs.mp hexp.2
    simpa [hinfo, expired] using he
  · cases hinfo : s.routes.brokerLiveTable.lookup a with
    | none => rfl
    | some info =>
      have hnot : ¬ info.lastUpdateTimestamp + BrokerChannelExpiredTime < now a := by
        intro he
        exact hexp ⟨mem_order.mpr (mem_iff_lookup.mpr ⟨info, hinfo⟩),
          mem_expiredAddrs.mpr ⟨info, hinfo, by simpa [expired] using he⟩⟩
      simp [hnot]

/-- One step that finds everything there is to remove. -/
lemma step_inv (s : NameServer) (a : Action) (s' : NameServer) (h : Inv s) (hc : Complete s a)
    (hs : step s a = some s') : Inv s' := by
  obtain rfl := Option.some.inj hs
  cases a with
  | registerBroker r => exact h.register r
  | unregisterBroker c addr name id => exact h.unregister hc.1 hc.2
  | onChannelDestroy remoteAddr channel walk => exact h.destroy hc.1 hc.2 walk
  | scanNotActiveBroker pref walk now => exact h.scan hc pref walk

lemma inv_newNameServer : Inv newNameServer :=
  ⟨⟨consistent_new, by simp [newNameServer, newRouteInfoManager]⟩,
    by simp [newNameServer, newRouteInfoManager]⟩

/-- Without registrations there is nothing in the tables. -/
lemma Inv.eq_new {s : NameServer} (h : Inv s) (hempty : s.registered = ∅) :
    s.routes = newRouteInfoManager := by
  have hlive : ∀ a, a ∉ s.routes.brokerLiveTable := by
    intro a
    rw [← AList.lookup_eq_none, ← Option.map_eq_none_iff, h.tracked a, hempty]
    exact AList.lookup_empty a
  have hname : ∀ n, n ∉ s.routes.brokerAddrTable := by
    intro n hn
    obtain ⟨id, addr, hold⟩ := h.sound.consistent.holds_of_mem hn
    exact hlive addr (h.sound.consistent.live_of_holds hold)
  have htopics : ∀ t, s.routes.topicQueueTable.lookup t = none := by
    intro t
    rw [Option.eq_none_iff_forall_ne_some]
    intro qds hqds
    obtain ⟨qd, hqd⟩ := List.exists_mem_of_ne_nil _ (h.sound.consistent.queues_ne t qds hqds)
    exact hname _ (h.sound.consistent.topicNames t qds hqds qd hqd)
  have hclusters : ∀ c, s.routes.clusterAddrTable.lookup c = none := by
    intro c
    rw [Option.eq_none_iff_forall_ne_some]
    intro names hnames
    obtain ⟨n, hn⟩ := Finset.nonempty_iff_ne_empty.mpr (h.sound.consistent.names_ne c names hnames)
    exact hname _ (h.sound.consistent.clusterNames c names hnames n hn)
  have hfilters : ∀ a, s.routes.filterServerTable.lookup a = none := fun a =>
    AList.lookup_eq_none.mpr fun ha => hlive a (h.sound.filters a ha)
  rw [newRouteInfoManager, RouteInfoManager.mk.injEq]
  exact ⟨eq_empty_iff.mpr htopics, eq_empty_iff.mpr fun n => AList.lookup_eq_none.mpr (hname n),
    eq_empty_iff.mpr hclusters, eq_empty_iff.mpr fun a => AList.lookup_eq_none.mpr (hlive a),
    eq_empty_iff.mpr hfilters⟩

/-- **Route tables.** In every run whose removals find everything there is to remove, the tables
fit together, and they are empty when no registration is left. -/
theorem routes_consistent {actions : List Action} {s : NameServer}
    (hm : Meets step Complete newNameServer actions)
    (hr : run step newNameServer actions = some s) :
    Consistent s.routes ∧ (s.registered = ∅ → s.routes = newRouteInfoManager) := by
  have h := run_invariant step_inv inv_newNameServer hm hr
  exact ⟨h.sound.consistent, h.eq_new⟩

/-! ### An address under two ids -/

instance (addr : Text) (s : RouteInfoManager) : Decidable (Removable addr s) :=
  inferInstanceAs (Decidable (_ ∧ _ ∧ _))

instance (now : Text → Int64) (name : Text) (s : RouteInfoManager) :
    Decidable (Expires now name s) :=
  List.decidableBAll
    (fun id => ((brokerAddrs name s).lookup id).all (· ∈ expiredAddrs now s) = true) _

instance (now : Text → Int64) (s : RouteInfoManager) : Decidable (ScanComplete now s) :=
  inferInstanceAs (Decidable (∀ addr ∈ _, _ ∧ _ ∧ _ ∧ _))

instance (s : NameServer) : (a : Action) → Decidable (Complete s a)
  | .registerBroker _ => inferInstanceAs (Decidable True)
  | .unregisterBroker _ _ _ _ => inferInstanceAs (Decidable (_ ∧ _))
  | .onChannelDestroy _ _ _ => inferInstanceAs (Decidable (_ ∧ _))
  | .scanNotActiveBroker _ _ now => inferInstanceAs (Decidable (ScanComplete now s.routes))

/-- A registration at time 0. -/
def registration (addr : Text) (id : Int64) (channel : Channel) : Registration :=
  ⟨"c".toList, addr, "b".toList, id, none, ⟨0, 0⟩, some (AList.singleton "T".toList {}), some [],
    channel, 0⟩

def plainWalk : Walk := ⟨[], [], fun _ => [0, 1], []⟩

def addr1 : Text := "1.1.1.1:10911".toList
def addr2 : Text := "1.1.1.2:10911".toList

/-- The broker registers again under another id, then its channel is destroyed. -/
def twoIds : List Action :=
  [.registerBroker (registration addr1 0 1), .registerBroker (registration addr1 1 1),
    .onChannelDestroy none (some 1) plainWalk]

/-- The address stays under its second id, and the tables do not become empty. -/
theorem routes_consistent_two_ids :
    ∃ s, run step newNameServer twoIds = some s ∧ s.registered = ∅ ∧
      ¬ Consistent s.routes ∧ s.routes ≠ newRouteInfoManager := by
  have hrun : (run step newNameServer twoIds).map (fun s =>
      (decide (s.registered = ∅), slotsOf addr1 s.routes, s.routes.brokerLiveTable.keys)) =
        some (true, [("b".toList, 1)], []) := by
    decide
  obtain ⟨s, hs, heq⟩ := Option.map_eq_some_iff.mp hrun
  simp only [Prod.mk.injEq, decide_eq_true_eq] at heq
  obtain ⟨hreg, hslots, hlive⟩ := heq
  have hold : Holds s.routes "b".toList 1 addr1 := mem_slotsOf.mp (by rw [hslots]; simp)
  refine ⟨s, hs, hreg, fun hc => ?_, fun hnew => ?_⟩
  · have := AList.mem_keys.mp (hc.live_of_holds hold)
    rw [hlive] at this
    simp at this
  · rw [hnew] at hold
    simp [Holds, brokerAddrs, newRouteInfoManager] at hold

/-- A master and a slave; the master unregisters, the slave expires. -/
def masterAndSlave : List Action :=
  [.registerBroker (registration addr1 0 1), .registerBroker (registration addr2 1 2),
    .unregisterBroker "c".toList addr1 "b".toList 0,
    .scanNotActiveBroker [] (fun _ => plainWalk) (fun _ => 120001)]

theorem routes_consistent_master_and_slave :
    ∃ s, run step newNameServer masterAndSlave = some s ∧ Consistent s.routes ∧
      s.routes = newRouteInfoManager := by
  have hrun : (run step newNameServer masterAndSlave).map (fun s => decide (s.registered = ∅)) =
      some true := by
    decide
  obtain ⟨s, hs, heq⟩ := Option.map_eq_some_iff.mp hrun
  have hok : checks step (fun s a => decide (Complete s a)) newNameServer masterAndSlave := by
    decide
  obtain ⟨h1, h2⟩ := routes_consistent (meets_of_checks (fun s a h => of_decide_eq_true h) hok) hs
  exact ⟨s, hs, h1, h2 (of_decide_eq_true heq)⟩

end CloudMQ.RouteTables
