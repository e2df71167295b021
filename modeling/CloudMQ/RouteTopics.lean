import CloudMQ.RouteTables

/-!
The topics of a name follow its master.

A registration of a master is skipped when its slot is taken and the address is known with the
same version. The topics under the name are those of the last registration that was not skipped,
so a skipped one is right where the last registration of the slot said the same.
-/

namespace CloudMQ.RouteTopics

open CloudMQ.Utf8 CloudMQ.Tables CloudMQ.Topics CloudMQ.RouteInfo CloudMQ.RouteTables CloudMQ.Runs

variable {s s' s'' : RouteInfoManager}

/-- What a topic has of a broker name. -/
def queuesOf (name topic : Text) (s : RouteInfoManager) : List QueueData :=
  ((s.topicQueueTable.lookup topic).getD []).filter fun qd => qd.brokerName = name

/-- The configuration a registration gives a topic. -/
def config (r : Registration) (topic : Text) : Option TopicConfig :=
  r.topicConfigTable.bind (·.lookup topic)

/-- **The topics of the registration are there**, each once under its name. -/
def Reflects (r : Registration) (s : RouteInfoManager) : Prop :=
  ∀ topic c, config r topic = some c →
    queuesOf r.brokerName topic s = [queueData r.brokerName c]

/-! ### What holds in every state -/

/-- No name without addresses, no topic with a name twice. -/
structure Tidy (s : RouteInfoManager) : Prop where
  addrs_ne : ∀ name addrs, s.brokerAddrTable.lookup name = some addrs → addrs ≠ ∅
  queues_ne : ∀ topic qds, s.topicQueueTable.lookup topic = some qds → qds ≠ []
  once : ∀ topic qds, s.topicQueueTable.lookup topic = some qds →
    (qds.map QueueData.brokerName).Nodup

/-- A removal: nothing new is held, and a name that stays keeps its topics. -/
structure Keeps (s s' : RouteInfoManager) : Prop where
  tidy : Tidy s'
  holds : ∀ name id addr, Holds s' name id addr → Holds s name id addr
  topics : ∀ name ∈ s'.brokerAddrTable, ∀ topic, queuesOf name topic s' = queuesOf name topic s

lemma Keeps.refl (h : Tidy s) : Keeps s s := ⟨h, fun _ _ _ => id, fun _ _ _ => rfl⟩

lemma mem_of_holds {name addr : Text} {id : Int64} (h : Holds s name id addr) :
    name ∈ s.brokerAddrTable := by
  obtain ⟨addrs, haddrs, -⟩ := holds_iff.mp h
  exact mem_iff_lookup.mpr ⟨addrs, haddrs⟩

lemma Tidy.holds_of_mem (h : Tidy s) {name : Text} (hmem : name ∈ s.brokerAddrTable) :
    ∃ id addr, Holds s name id addr := by
  obtain ⟨addrs, haddrs⟩ := mem_iff_lookup.mp hmem
  obtain ⟨id, addr, hid⟩ := ne_empty_iff.mp (h.addrs_ne name addrs haddrs)
  exact ⟨id, addr, holds_iff.mpr ⟨addrs, haddrs, hid⟩⟩

lemma Keeps.trans (h : Keeps s s') (h' : Keeps s' s'') : Keeps s s'' := by
  refine ⟨h'.tidy, fun n i a hold => h.holds n i a (h'.holds n i a hold), fun n hn t => ?_⟩
  obtain ⟨i, a, hold⟩ := h'.tidy.holds_of_mem hn
  rw [h'.topics n hn t, h.topics n (mem_of_holds (h'.holds n i a hold)) t]

lemma Tidy.dropAddr (h : Tidy s) (addr : Text) : Keeps s (dropAddr addr s) :=
  ⟨⟨h.addrs_ne, h.queues_ne, h.once⟩, fun _ _ _ => id, fun _ _ _ => rfl⟩

lemma queuesOf_dropSlot {addr name : Text} {id : Int64} {clusters : Table Text (Finset Text)}
    {n : Text} (hn : n ∈ (dropSlot addr name id clusters s).brokerAddrTable) (t : Text) :
    queuesOf n t (dropSlot addr name id clusters s) = queuesOf n t s := by
  by_cases hlast : (brokerAddrs name s).erase id = ∅
  · have hne : n ≠ name := fun heq => (mem_dropSlot.mp hn).2 heq hlast
    have hfilter : ∀ qds : List QueueData,
        (qds.filter fun qd => some qd.brokerName ≠ some name).filter (fun qd => qd.brokerName = n) =
          qds.filter fun qd => qd.brokerName = n := by
      intro qds
      rw [List.filter_filter]
      congr 1
      funext qd
      by_cases hqd : qd.brokerName = n <;> simp [hqd, hne]
    rw [dropSlot, if_pos hlast]
    simp only [queuesOf, removeTopicByBrokerName, lookup_mapMaybe]
    cases s.topicQueueTable.lookup t with
    | none => rfl
    | some qds =>
      simp only [Option.bind_some, Option.getD_some]
      rw [← hfilter qds]
      split_ifs with hnil
      · rw [hnil]
        rfl
      · rfl
  · rw [dropSlot, if_neg hlast]
    rfl

lemma Tidy.dropSlot (h : Tidy s) (addr name : Text) (id : Int64)
    (clusters : Table Text (Finset Text)) : Keeps s (dropSlot addr name id clusters s) where
  tidy := by
    refine ⟨addrs_ne_dropSlot h.addrs_ne, fun t qds ht => (topics_dropSlot h.queues_ne ht).1,
      fun t qds ht => ?_⟩
    obtain ⟨-, old, hold, hsub, -⟩ := topics_dropSlot h.queues_ne ht
    exact (h.once t old hold).sublist (hsub.map _)
  holds _ _ _ hold := (holds_dropSlot.mp hold).1
  topics _ hn t := queuesOf_dropSlot hn t

lemma Tidy.unregisterBroker (h : Tidy s) (c addr name : Text) (id : Int64) :
    Keeps s (unregisterBroker c addr name id s) := by
  rw [unregisterBroker_eq]
  split_ifs
  · exact h.dropSlot ..
  · exact h.dropAddr addr

lemma Tidy.removeBrokerAddr (h : Tidy s) (addr : Text) (walk : Walk) :
    Keeps s (removeBrokerAddr addr walk s) := by
  by_cases hempty : addr = []
  · simpa [RouteInfo.removeBrokerAddr, hempty] using Keeps.refl h
  · rcases removeBrokerAddr_cases h.addrs_ne hempty walk with ⟨-, heq⟩ | ⟨name, id, -, heq⟩
    · exact heq ▸ h.dropAddr addr
    · exact heq ▸ h.dropSlot ..

lemma Tidy.onChannelDestroy (h : Tidy s) (remoteAddr : Option Text) (channel : Option Channel)
    (walk : Walk) : Keeps s (onChannelDestroy remoteAddr channel walk s) := by
  unfold RouteInfo.onChannelDestroy
  split
  · exact Keeps.refl h
  · exact h.removeBrokerAddr ..

lemma Tidy.scan (walk : Text → Walk) (now : Text → Int64) (rest : List Text) (h : Tidy s) :
    Keeps s (scan walk now rest s) := by
  induction rest generalizing s with
  | nil => exact Keeps.refl h
  | cons addr rest ih =>
    rw [RouteInfo.scan]
    split
    · exact Keeps.refl h
    · next info hinfo =>
      split_ifs
      · have hforget : Keeps s { s with brokerLiveTable := s.brokerLiveTable.erase addr } :=
          ⟨⟨h.addrs_ne, h.queues_ne, h.once⟩, fun _ _ _ => id, fun _ _ _ => rfl⟩
        have hkeeps := hforget.trans
          (hforget.tidy.onChannelDestroy (some addr) (some info.channel) (walk addr))
        dsimp only
        split_ifs
        · exact hkeeps.trans (ih hkeeps.tidy)
        · exact hkeeps
      · exact ih h

/-! ### Registrations -/

lemma filter_updated_self {name : Text} {c : TopicConfig} {qds : List QueueData}
    (h : (qds.map QueueData.brokerName).Nodup) :
    (updated name c qds).filter (fun qd => qd.brokerName = name) = [queueData name c] := by
  have hmem : queueData name c ∈ (updated name c qds).filter (fun qd => qd.brokerName = name) :=
    List.mem_filter.mpr ⟨mem_updated.mpr (.inl rfl), by simp [queueData]⟩
  have hall : ∀ qd ∈ (updated name c qds).filter (fun qd => qd.brokerName = name),
      qd = queueData name c := by
    intro qd hqd
    obtain ⟨h1, h2⟩ := List.mem_filter.mp hqd
    rcases mem_updated.mp h1 with h3 | ⟨-, h3⟩
    · exact h3
    · exact absurd (by simpa using h2) h3
  have hnodup : ((updated name c qds).filter (fun qd => qd.brokerName = name)).Nodup :=
    ((nodup_updated h).of_map _).filter _
  have hrep := List.eq_replicate_of_mem hall
  rw [hrep, List.nodup_replicate] at hnodup
  have hpos := List.length_pos_of_mem hmem
  rw [hrep, Nat.le_antisymm hnodup hpos]
  rfl

lemma filter_updated_other {name n : Text} (hn : n ≠ name) (c : TopicConfig)
    (qds : List QueueData) :
    (updated name c qds).filter (fun qd => qd.brokerName = n) =
      qds.filter fun qd => qd.brokerName = n := by
  have hkept : (qds.filter fun qd => qd.brokerName ≠ name ∨ qd = queueData name c).filter
      (fun qd => qd.brokerName = n) = qds.filter fun qd => qd.brokerName = n := by
    rw [List.filter_filter]
    apply List.filter_congr
    intro qd _
    by_cases hqd : qd.brokerName = n <;> simp [hqd, hn]
  unfold updated
  split_ifs
  · exact hkept
  · rw [List.filter_append, hkept]
    simp [queueData, hn.symm]

lemma queuesOf_register_other {r : Registration} {n : Text} (hn : n ≠ r.brokerName) (t : Text) :
    queuesOf n t (register r s) = queuesOf n t s := by
  unfold queuesOf
  rcases registeredTopics_cases r s t with hsame | ⟨c, hupd⟩
  · simp only [register, hsame]
  · simp only [register, hupd, Option.getD_some]
    exact filter_updated_other hn c _

lemma Tidy.register (h : Tidy s) (r : Registration) : Tidy (register r s) where
  addrs_ne := addrs_ne_register h.addrs_ne r
  queues_ne := queues_ne_register h.queues_ne r
  once := once_register h.once r

/-- Topics that are looked at are there. -/
lemma Tidy.reflects_register (h : Tidy s) {r : Registration} (hu : updates r s) :
    Reflects r (RouteInfo.register r s) := by
  intro t c hc
  obtain ⟨table, htable, hlook⟩ := Option.bind_eq_some_iff.mp hc
  have htopics : (RouteInfo.register r s).topicQueueTable.lookup t =
      some (updated r.brokerName c ((s.topicQueueTable.lookup t).getD [])) := by
    simp [RouteInfo.register, registeredTopics, hu, htable, lookup_updateTopics, hlook]
  rw [queuesOf, htopics, Option.getD_some]
  apply filter_updated_self
  cases hold : s.topicQueueTable.lookup t with
  | none => simp
  | some qds => exact h.once t qds hold

/-! ### Every run -/

/-- A name server and, for each name, the last registration of its master. -/
structure NameServer where
  routes : RouteInfoManager
  lastMaster : Text → Option Registration

def lastMasterAfter (last : Text → Option Registration) : Action → Text → Option Registration
  | .registerBroker r =>
    if r.brokerId = MASTER_ID then Function.update last r.brokerName (some r) else last
  | _ => last

def step (s : NameServer) (a : Action) : Option NameServer :=
  some ⟨act s.routes a, lastMasterAfter s.lastMaster a⟩

def newNameServer : NameServer := ⟨newRouteInfoManager, fun _ => none⟩

/-- Equal versions from one address mean equal tables. -/
def Versioned (actions : List Action) : Prop :=
  ∀ r r', .registerBroker r ∈ actions → .registerBroker r' ∈ actions →
    r.brokerAddr = r'.brokerAddr → r.dataVersion = r'.dataVersion → config r = config r'

/-- **A master is not taken for the one before it**: the slot is free, or the address is not
alive with this version, or the last master of the name was this address with this version. -/
def Recognised (s : NameServer) : Action → Prop
  | .registerBroker r => r.brokerId = MASTER_ID →
    (brokerAddrs r.brokerName s.routes).lookup MASTER_ID = none ∨
      (∀ info ∈ s.routes.brokerLiveTable.lookup r.brokerAddr, info.dataVersion ≠ r.dataVersion) ∨
      ∃ r' ∈ s.lastMaster r.brokerName,
        r'.brokerAddr = r.brokerAddr ∧ r'.dataVersion = r.dataVersion
  | _ => True

/-- What a run keeps: the topics of a name that has a master are those of its last
registration. -/
structure Inv (actions : List Action) (s : NameServer) : Prop where
  tidy : Tidy s.routes
  last : ∀ name, ∀ r ∈ s.lastMaster name, .registerBroker r ∈ actions ∧ r.brokerName = name
  reflects : ∀ name addr, Holds s.routes name MASTER_ID addr →
    ∃ r ∈ s.lastMaster name, Reflects r s.routes

lemma Inv.keeps {actions : List Action} {s : NameServer} (h : Inv actions s)
    {routes : RouteInfoManager} (hk : Keeps s.routes routes) :
    Inv actions ⟨routes, s.lastMaster⟩ where
  tidy := hk.tidy
  last := h.last
  reflects name addr hold := by
    obtain ⟨r, hr, href⟩ := h.reflects name addr (hk.holds _ _ _ hold)
    refine ⟨r, hr, fun t c hc => ?_⟩
    have hname := (h.last name r hr).2
    rw [hk.topics _ (hname ▸ mem_of_holds hold)]
    exact href t c hc

lemma registerFirst_of_free {r : Registration} (hid : r.brokerId = MASTER_ID)
    (h : (brokerAddrs r.brokerName s).lookup MASTER_ID = none) : updates r s := by
  have hslot : (brokerAddrs r.brokerName s).lookup r.brokerId = none := hid ▸ h
  simp [updates, registerFirst, hid, hslot]

lemma updates_of_version {r : Registration} (hid : r.brokerId = MASTER_ID)
    (h : ∀ info ∈ s.brokerLiveTable.lookup r.brokerAddr, info.dataVersion ≠ r.dataVersion) :
    updates r s := by
  unfold updates isBrokerTopicConfigChanged
  cases hlook : s.brokerLiveTable.lookup r.brokerAddr with
  | none => simp [hid]
  | some info => simp [hid, h info hlook]

/-- A skipped registration leaves the topics alone. -/
lemma queuesOf_register_skipped {r : Registration} (hu : updates r s = false) (n t : Text) :
    queuesOf n t (register r s) = queuesOf n t s := by
  simp [queuesOf, register, registeredTopics, hu]

/-- The topics of a master after its registration. -/
lemma Inv.reflects_register {actions : List Action} {s : NameServer} (h : Inv actions s)
    (hv : Versioned actions) {r : Registration} (hmem : .registerBroker r ∈ actions)
    (hid : r.brokerId = MASTER_ID) (hok : Recognised s (.registerBroker r)) :
    Reflects r (register r s.routes) := by
  by_cases hu : updates r s.routes
  · exact h.tidy.reflects_register hu
  · rw [Bool.not_eq_true] at hu
    rcases hok hid with hfree | hversion | ⟨r', hr', haddr, hver⟩
    · simp [registerFirst_of_free hid hfree] at hu
    · simp [updates_of_version hid hversion] at hu
    · obtain ⟨hmem', hname⟩ := h.last r.brokerName r' hr'
      -- the slot is taken, so the topics under the name are those of `r'`
      have htaken : ∃ addr, Holds s.routes r.brokerName MASTER_ID addr := by
        cases hslot : (brokerAddrs r.brokerName s.routes).lookup MASTER_ID with
        | none => simp [registerFirst_of_free hid hslot] at hu
        | some addr => exact ⟨addr, hslot⟩
      obtain ⟨addr, hold⟩ := htaken
      obtain ⟨r'', hr'', href⟩ := h.reflects r.brokerName addr hold
      obtain rfl := Option.some.inj (hr'.symm.trans hr'')
      intro t c hc
      rw [queuesOf_register_skipped hu]
      rw [← hv r' r hmem' hmem haddr hver] at hc
      rw [← hname]
      exact href t c hc

lemma Inv.register {actions : List Action} {s : NameServer} (h : Inv actions s)
    (hv : Versioned actions) {r : Registration} (hmem : .registerBroker r ∈ actions)
    (hok : Recognised s (.registerBroker r)) :
    Inv actions ⟨register r s.routes, lastMasterAfter s.lastMaster (.registerBroker r)⟩ where
  tidy := h.tidy.register r
  last name r' hr' := by
    simp only [lastMasterAfter] at hr'
    split_ifs at hr'
    · by_cases hname : name = r.brokerName
      · subst hname
        simp only [Function.update_self, Option.mem_some_iff] at hr'
        exact hr' ▸ ⟨hmem, rfl⟩
      · rw [Function.update_of_ne hname] at hr'
        exact h.last name r' hr'
    · exact h.last name r' hr'
  reflects name addr hold := by
    by_cases hname : name = r.brokerName
    · subst hname
      by_cases hid : r.brokerId = MASTER_ID
      · exact ⟨r, by simp [lastMasterAfter, hid], h.reflects_register hv hmem hid hok⟩
      · have hskip : updates r s.routes = false := by simp [updates, hid]
        rw [holds_register, if_neg fun h' => hid h'.2.symm] at hold
        obtain ⟨r', hr', href⟩ := h.reflects _ addr hold
        refine ⟨r', by simpa [lastMasterAfter, hid] using hr', fun t c hc => ?_⟩
        rw [queuesOf_register_skipped hskip]
        exact href t c hc
    · rw [holds_register, if_neg fun h' => hname h'.1] at hold
      obtain ⟨r', hr', href⟩ := h.reflects name addr hold
      refine ⟨r', ?_, fun t c hc => ?_⟩
      · simp only [lastMasterAfter]
        split_ifs
        · rwa [Function.update_of_ne hname]
        · exact hr'
      · rw [queuesOf_register_other ((h.last name r' hr').2 ▸ hname)]
        exact href t c hc

lemma step_inv {actions : List Action} (hv : Versioned actions) {s s' : NameServer} {a : Action}
    (h : Inv actions s) (ha : a ∈ actions) (hok : Recognised s a) (hs : step s a = some s') :
    Inv actions s' := by
  obtain rfl := Option.some.inj hs
  cases a with
  | registerBroker r => exact h.register hv ha hok
  | unregisterBroker c addr name id => exact h.keeps (h.tidy.unregisterBroker c addr name id)
  | onChannelDestroy remoteAddr channel walk =>
    exact h.keeps (h.tidy.onChannelDestroy remoteAddr channel walk)
  | scanNotActiveBroker pref walk now => exact h.keeps (h.tidy.scan walk now _)

/-- A run of the actions, each of them recognised, keeps the invariant. -/
lemma run_inv {all : List Action} (hv : Versioned all) {s t : NameServer} {as : List Action}
    (h : Inv all s) (hsub : ∀ a ∈ as, a ∈ all) (hm : Meets step Recognised s as)
    (hr : run step s as = some t) : Inv all t := by
  induction as generalizing s with
  | nil =>
    obtain rfl := Option.some.inj hr
    exact h
  | cons a as ih =>
    obtain ⟨s', h1, h2⟩ := run_cons.mp hr
    exact ih (step_inv hv h (hsub a (by simp)) hm.1 h1) (fun b hb => hsub b (by simp [hb]))
      (hm.2 s' h1) h2

lemma inv_newNameServer (actions : List Action) : Inv actions newNameServer :=
  ⟨⟨by simp [newNameServer, newRouteInfoManager], by simp [newNameServer, newRouteInfoManager],
      by simp [newNameServer, newRouteInfoManager]⟩, by simp [newNameServer],
    by simp [newNameServer, newRouteInfoManager, Holds, brokerAddrs]⟩

/-- **Topics of a master.** After every registration of a master in a run in which masters are
recognised, every topic of its table has exactly one entry of its name, the one built from the
table. -/
theorem topics_reflect_master {actions : List Action} {r : Registration} {s : NameServer}
    (hv : Versioned (actions ++ [.registerBroker r])) (hid : r.brokerId = MASTER_ID)
    (hm : Meets step Recognised newNameServer (actions ++ [.registerBroker r]))
    (hr : run step newNameServer (actions ++ [.registerBroker r]) = some s) :
    Reflects r s.routes := by
  obtain ⟨s', h1, h2⟩ := run_append.mp hr
  obtain ⟨hm1, hm2⟩ := hm.append h1
  have hinv := run_inv hv (inv_newNameServer _) (fun a ha => by simp [ha]) hm1 h1
  obtain rfl := Option.some.inj (h2.symm.trans (run_cons.mpr ⟨_, rfl, rfl⟩)).symm
  exact hinv.reflects_register hv (by simp) hid hm2.1

/-! ### A master that comes back -/

/-- An address always registers the same table. -/
def follows (table : Text → Option TopicConfigTable) : Action → Bool
  | .registerBroker r => r.topicConfigTable = table r.brokerAddr
  | _ => true

lemma versioned_of_follows {table : Text → Option TopicConfigTable} {actions : List Action}
    (h : actions.all (follows table)) : Versioned actions := by
  have hall : ∀ r, .registerBroker r ∈ actions → r.topicConfigTable = table r.brokerAddr := by
    intro r hr
    simpa [follows] using List.all_eq_true.mp h _ hr
  intro r r' hr hr' haddr _
  funext t
  rw [config, config, hall r hr, hall r' hr', haddr]

/-- The registration of a master with one topic; the second address may only be read. -/
def masterTable (addr : Text) : Option TopicConfigTable :=
  some (AList.singleton "T".toList (if addr = addr2 then { perm := PERM_READ } else {}))

def masterRegistration (addr : Text) : Registration :=
  { registration addr MASTER_ID 1 with topicConfigTable := masterTable addr }

/-- One address is master, then another, then the first again with the version it had. -/
def backAndForth : List Action :=
  [.registerBroker (masterRegistration addr1), .registerBroker (masterRegistration addr2)] ++
    [.registerBroker (masterRegistration addr1)]

/-- The topic keeps the permission of the second master. -/
theorem topics_reflect_master_back :
    Versioned backAndForth ∧ ∃ s, run step newNameServer backAndForth = some s ∧
      ¬ Reflects (masterRegistration addr1) s.routes := by
  have hv : backAndForth.all (follows masterTable) := by decide
  have hrun : (run step newNameServer backAndForth).map (fun s =>
      (queuesOf "b".toList "T".toList s.routes).map QueueData.perm) = some [PERM_READ] := by
    decide
  obtain ⟨s, hs, heq⟩ := Option.map_eq_some_iff.mp hrun
  refine ⟨versioned_of_follows hv, s, hs, fun href => ?_⟩
  have hqueues := href "T".toList {} (by decide)
  rw [show (masterRegistration addr1).brokerName = "b".toList from rfl] at hqueues
  rw [hqueues] at heq
  exact absurd heq (by decide)

/-- A second master that takes over from the first. -/
def takeover : List Action := [.registerBroker (masterRegistration addr1)]

theorem topics_reflect_master_takeover :
    ∃ s, run step newNameServer (takeover ++ [.registerBroker (masterRegistration addr2)]) =
        some s ∧ Reflects (masterRegistration addr2) s.routes := by
  have hv : (takeover ++ [Action.registerBroker (masterRegistration addr2)]).all
      (follows masterTable) := by decide
  have hfree : (brokerAddrs "b".toList newRouteInfoManager).lookup MASTER_ID = none := by
    decide
  have hunknown : (register (masterRegistration addr1) newRouteInfoManager).brokerLiveTable.lookup
      addr2 = none := by decide
  have hm : Meets step Recognised newNameServer
      (takeover ++ [.registerBroker (masterRegistration addr2)]) := by
    refine Meets.cons rfl (fun _ => .inl hfree) (Meets.cons rfl (fun _ => .inr (.inl ?_)) trivial)
    intro info hinfo
    exact absurd (hinfo.symm.trans hunknown) (by simp)
  obtain ⟨s, hs⟩ : ∃ s, run step newNameServer
      (takeover ++ [.registerBroker (masterRegistration addr2)]) = some s := ⟨_, rfl⟩
  exact ⟨s, hs, topics_reflect_master (versioned_of_follows hv) rfl hm hs⟩

end CloudMQ.RouteTopics
