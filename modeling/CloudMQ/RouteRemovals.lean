import CloudMQ.RouteTopics

/-!
Removals that come late.

A destroyed channel is handled in two steps: the address is searched for under the read lock and
removed under the write lock, and a registration may come between them. A broker's own request
names the slot to clear by its id, whoever holds it by then. A registration that nothing has been
asked against since survives where neither happens.
-/

namespace CloudMQ.RouteRemovals

open CloudMQ.Utf8 CloudMQ.Tables CloudMQ.Topics CloudMQ.RouteInfo CloudMQ.RouteTables
open CloudMQ.RouteTopics CloudMQ.Runs

inductive Action
  | registerBroker (r : Registration)
  | unregisterBroker (clusterName brokerAddr brokerName : Text) (brokerId : Int64)
  | search (remoteAddr : Option Text) (channel : Option Channel) (walk : Walk)
  | remove (brokerAddr : Text) (walk : Walk)

/-- The last registration of each slot, as long as neither its address is unregistered nor its
channel destroyed. -/
abbrev Fresh := Table (Text × Int64) (Text × Channel)

/-- `removing` are the addresses that have been found and not removed yet. -/
structure NameServer where
  routes : RouteInfoManager
  removing : List Text
  fresh : Fresh

def Fresh.dropAddr (addr : Text) (f : Fresh) : Fresh :=
  mapMaybe (fun _ p => if p.1 = addr then none else some p) f

def Fresh.dropChannel (channel : Option Channel) (f : Fresh) : Fresh :=
  mapMaybe (fun _ p => if some p.2 = channel then none else some p) f

def step (s : NameServer) : Action → Option NameServer
  | .registerBroker r =>
    some ⟨(registerBroker r s.routes).2, s.removing,
      s.fresh.insert (r.brokerName, r.brokerId) (r.brokerAddr, r.channel)⟩
  | .unregisterBroker c addr name id =>
    some ⟨unregisterBroker c addr name id s.routes, s.removing, s.fresh.dropAddr addr⟩
  | .search remoteAddr channel walk =>
    some ⟨s.routes, (brokerAddrFound remoteAddr channel walk s.routes).toList ++ s.removing,
      s.fresh.dropChannel channel⟩
  | .remove addr walk =>
    if addr ∈ s.removing then
      some ⟨removeBrokerAddr addr walk s.routes, s.removing.erase addr, s.fresh⟩
    else none

def newNameServer : NameServer := ⟨newRouteInfoManager, [], ∅⟩

/-- **The registration stands.** -/
def Stands (s : NameServer) : Prop :=
  ∀ name id addr ch, s.fresh.lookup (name, id) = some (addr, ch) →
    Holds s.routes name id addr ∧
      ∃ info, s.routes.brokerLiveTable.lookup addr = some info ∧ info.channel = ch

/-- **No removal is late**: no address registers while it is being removed, or on another channel
than it has under another slot; a broker unregisters a slot it was the last to register; and a
channel nobody is alive on does not have the address of a broker. -/
def Timely (s : NameServer) : Action → Prop
  | .registerBroker r => r.brokerAddr ∉ s.removing ∧
    ∀ e ∈ s.fresh.entries, e.1 ≠ (r.brokerName, r.brokerId) → e.2.1 = r.brokerAddr →
      e.2.2 = r.channel
  | .unregisterBroker _ addr name id => ∀ p ∈ s.fresh.lookup (name, id), p.1 = addr
  | .search remoteAddr channel _ => (∀ ch ∈ channel, addrsOn ch s.routes = []) →
    ∀ e ∈ s.fresh.entries, some e.2.1 ≠ remoteAddr
  | .remove _ _ => True

structure Inv (s : NameServer) : Prop where
  stands : Stands s
  tidy : Tidy s.routes
  removing : ∀ addr ∈ s.removing, ∀ p q, s.fresh.lookup p = some q → q.1 ≠ addr

lemma lookup_dropAddr {addr : Text} {f : Fresh} {p : Text × Int64} {q : Text × Channel} :
    (f.dropAddr addr).lookup p = some q ↔ f.lookup p = some q ∧ q.1 ≠ addr := by
  rw [Fresh.dropAddr, lookup_mapMaybe]
  cases f.lookup p with
  | none => simp
  | some q' =>
    by_cases h : q'.1 = addr
    · simp only [Option.bind_some, if_pos h, Option.some.injEq, reduceCtorEq, false_iff, not_and,
        not_not]
      rintro rfl
      exact h
    · simp only [Option.bind_some, if_neg h, Option.some.injEq]
      exact ⟨fun h' => ⟨h', h' ▸ h⟩, And.left⟩

lemma lookup_dropChannel {channel : Option Channel} {f : Fresh} {p : Text × Int64}
    {q : Text × Channel} :
    (f.dropChannel channel).lookup p = some q ↔ f.lookup p = some q ∧ some q.2 ≠ channel := by
  rw [Fresh.dropChannel, lookup_mapMaybe]
  cases f.lookup p with
  | none => simp
  | some q' =>
    by_cases h : some q'.2 = channel
    · simp only [Option.bind_some, if_pos h, Option.some.injEq, reduceCtorEq, false_iff, not_and,
        not_not]
      rintro rfl
      exact h
    · simp only [Option.bind_some, if_neg h, Option.some.injEq]
      exact ⟨fun h' => ⟨h', h' ▸ h⟩, And.left⟩

lemma Inv.register {s : NameServer} (h : Inv s) {r : Registration}
    (hremoving : r.brokerAddr ∉ s.removing)
    (hchannel : ∀ e ∈ s.fresh.entries, e.1 ≠ (r.brokerName, r.brokerId) →
      e.2.1 = r.brokerAddr → e.2.2 = r.channel) :
    Inv ⟨(registerBroker r s.routes).2, s.removing,
      s.fresh.insert (r.brokerName, r.brokerId) (r.brokerAddr, r.channel)⟩ where
  stands name id addr ch hfresh := by
    simp only [lookup_insert_ite, Prod.mk.injEq] at hfresh
    have hlive : (registerBroker r s.routes).2.brokerLiveTable.lookup addr =
        if addr = r.brokerAddr then some ⟨r.now, r.dataVersion, r.channel, r.haServerAddr⟩
        else s.routes.brokerLiveTable.lookup addr := lookup_insert_ite ..
    split_ifs at hfresh with hslot
    · obtain ⟨rfl, rfl⟩ := Prod.mk.inj (Option.some.inj hfresh)
      rw [hlive, if_pos rfl]
      exact ⟨holds_register.mpr (by rw [if_pos hslot]), _, rfl, rfl⟩
    · obtain ⟨hold, info, hinfo, hch⟩ := h.stands name id addr ch hfresh
      refine ⟨holds_register.mpr (by rwa [if_neg hslot]), ?_⟩
      rw [hlive]
      split_ifs with haddr
      · have hne : (name, id) ≠ (r.brokerName, r.brokerId) := by simpa using hslot
        exact ⟨_, rfl, (hchannel _ (mem_entries_iff.mpr hfresh) hne haddr).symm⟩
      · exact ⟨info, hinfo, hch⟩
  tidy := h.tidy.register r
  removing addr haddr p q hq := by
    simp only [lookup_insert_ite] at hq
    split_ifs at hq
    · obtain rfl := Option.some.inj hq
      rintro rfl
      exact hremoving haddr
    · exact h.removing addr haddr p q hq

lemma Inv.unregister {s : NameServer} (h : Inv s) {c addr name : Text} {id : Int64}
    (hslot : ∀ p ∈ s.fresh.lookup (name, id), p.1 = addr) :
    Inv ⟨unregisterBroker c addr name id s.routes, s.removing, s.fresh.dropAddr addr⟩ where
  stands n i a ch hfresh := by
    obtain ⟨hfresh, hne⟩ := lookup_dropAddr.mp hfresh
    obtain ⟨hold, info, hinfo, hch⟩ := h.stands n i a ch hfresh
    have hother : (n, i) ≠ (name, id) := fun heq => hne (hslot _ (heq ▸ hfresh))
    rw [unregisterBroker_eq]
    split_ifs
    · refine ⟨holds_dropSlot.mpr ⟨hold, hother⟩, info, ?_, hch⟩
      rw [live_dropSlot, lookup_erase_ite, if_neg hne, hinfo]
    · refine ⟨hold, info, ?_, hch⟩
      simp only [dropAddr, lookup_erase_ite]
      rw [if_neg hne, hinfo]
  tidy := (h.tidy.unregisterBroker c addr name id).tidy
  removing a ha p q hq := h.removing a ha p q (lookup_dropAddr.mp hq).1

lemma Inv.search {s : NameServer} (h : Inv s) {remoteAddr : Option Text}
    {channel : Option Channel} {walk : Walk}
    (hremote : (∀ ch ∈ channel, addrsOn ch s.routes = []) →
      ∀ e ∈ s.fresh.entries, some e.2.1 ≠ remoteAddr) :
    Inv ⟨s.routes, (brokerAddrFound remoteAddr channel walk s.routes).toList ++ s.removing,
      s.fresh.dropChannel channel⟩ where
  stands n i a ch hfresh := h.stands n i a ch (lookup_dropChannel.mp hfresh).1
  tidy := h.tidy
  removing a ha p q hq := by
    obtain ⟨hfresh, hch⟩ := lookup_dropChannel.mp hq
    rcases List.mem_append.mp ha with hfound | hold
    · rw [Option.mem_toList] at hfound
      rintro rfl
      cases hfind : findBrokerAddr channel walk s.routes with
      | none =>
        rw [brokerAddrFound, hfind, Option.none_or] at hfound
        exact hremote (findBrokerAddr_eq_none.mp hfind) _ (mem_entries_iff.mpr hfresh) hfound.symm
      | some a =>
        -- the address was found on the channel, so its fresh slots are on it too
        rw [brokerAddrFound, hfind, Option.some_or] at hfound
        obtain rfl := Option.some.inj hfound
        obtain ⟨ch, hchannel, hmem⟩ := findBrokerAddr_mem hfind
        obtain ⟨info, hinfo, hinfoch⟩ := mem_addrsOn.mp hmem
        obtain ⟨-, info', hinfo', hch'⟩ := h.stands p.1 p.2 q.1 q.2 hfresh
        obtain rfl := Option.some.inj (hinfo.symm.trans hinfo')
        exact hch (by rw [← hch', hinfoch, hchannel])
    · exact h.removing a hold p q hfresh

lemma Inv.remove {s : NameServer} (h : Inv s) {addr : Text} (haddr : addr ∈ s.removing)
    (walk : Walk) :
    Inv ⟨removeBrokerAddr addr walk s.routes, s.removing.erase addr, s.fresh⟩ where
  stands n i a ch hfresh := by
    have hne : a ≠ addr := h.removing addr haddr (n, i) (a, ch) hfresh
    obtain ⟨hold, info, hinfo, hch⟩ := h.stands n i a ch hfresh
    have hlive : (s.routes.brokerLiveTable.erase addr).lookup a = some info := by
      rw [lookup_erase_ite, if_neg hne, hinfo]
    by_cases hempty : addr = []
    · simpa [RouteInfo.removeBrokerAddr, hempty] using ⟨hold, info, hinfo, hch⟩
    · rcases removeBrokerAddr_cases h.tidy.addrs_ne hempty walk with
        ⟨-, heq⟩ | ⟨name, id, hold', heq⟩
      · rw [heq]
        exact ⟨hold, info, hlive, hch⟩
      · rw [heq]
        refine ⟨holds_dropSlot.mpr ⟨hold, ?_⟩, info, by rwa [live_dropSlot], hch⟩
        rintro ⟨⟩
        exact hne (Option.some.inj (hold.symm.trans hold'))
  tidy := (h.tidy.removeBrokerAddr addr walk).tidy
  removing a ha := h.removing a (List.mem_of_mem_erase ha)

lemma step_inv (s : NameServer) (a : Action) (s' : NameServer) (h : Inv s) (ht : Timely s a)
    (hs : step s a = some s') : Inv s' := by
  cases a with
  | registerBroker r =>
    obtain rfl := Option.some.inj hs
    exact h.register ht.1 ht.2
  | unregisterBroker c addr name id =>
    obtain rfl := Option.some.inj hs
    exact h.unregister ht
  | search remoteAddr channel walk =>
    obtain rfl := Option.some.inj hs
    exact h.search ht
  | remove addr walk =>
    simp only [step] at hs
    split_ifs at hs with haddr
    obtain rfl := Option.some.inj hs
    exact h.remove haddr walk

lemma inv_newNameServer : Inv newNameServer :=
  ⟨by simp [Stands, newNameServer],
    ⟨by simp [newNameServer, newRouteInfoManager], by simp [newNameServer, newRouteInfoManager],
      by simp [newNameServer, newRouteInfoManager]⟩, by simp [newNameServer]⟩

/-- **Newer registrations stand.** In every run without late removals the last registration of a
slot stands, unless its address has been unregistered or its channel destroyed since. -/
theorem registrations_stand {actions : List Action} {s : NameServer}
    (hm : Meets step Timely newNameServer actions) (hr : run step newNameServer actions = some s) :
    Stands s :=
  (run_invariant step_inv inv_newNameServer hm hr).stands

/-! ### A broker that comes back between the search and the removal -/

instance (s : NameServer) : (a : Action) → Decidable (Timely s a)
  | .registerBroker _ => inferInstanceAs (Decidable (_ ∧ _))
  | .unregisterBroker _ addr name id =>
    inferInstanceAs (Decidable (∀ p ∈ s.fresh.lookup (name, id), p.1 = addr))
  | .search remoteAddr channel _ =>
    inferInstanceAs (Decidable ((∀ ch ∈ channel, addrsOn ch s.routes = []) →
      ∀ e ∈ s.fresh.entries, some e.2.1 ≠ remoteAddr))
  | .remove _ _ => inferInstanceAs (Decidable True)

/-- The channel is destroyed, the broker registers on a new one, and then it is removed. -/
def reconnect : List Action :=
  [.registerBroker (registration addr1 0 1), .search none (some 1) plainWalk,
    .registerBroker (registration addr1 0 2), .remove addr1 plainWalk]

theorem registrations_stand_reconnect :
    ∃ s, run step newNameServer reconnect = some s ∧ ¬ Stands s := by
  have hrun : (run step newNameServer reconnect).map (fun s =>
      (s.fresh.lookup ("b".toList, 0), slotsOf addr1 s.routes)) = some (some (addr1, 2), []) := by
    decide
  obtain ⟨s, hs, heq⟩ := Option.map_eq_some_iff.mp hrun
  obtain ⟨hfresh, hslots⟩ := Prod.mk.inj heq
  refine ⟨s, hs, fun hstands => ?_⟩
  have hmem := mem_slotsOf.mpr (hstands _ _ _ _ hfresh).1
  rw [hslots] at hmem
  simp at hmem

/-- The removal comes first. -/
def reconnectLater : List Action :=
  [.registerBroker (registration addr1 0 1), .search none (some 1) plainWalk,
    .remove addr1 plainWalk, .registerBroker (registration addr1 0 2)]

theorem registrations_stand_reconnect_later :
    ∃ s, run step newNameServer reconnectLater = some s ∧
      s.fresh.lookup ("b".toList, 0) = some (addr1, 2) ∧ Stands s := by
  have hrun : (run step newNameServer reconnectLater).map (fun s =>
      s.fresh.lookup ("b".toList, 0)) = some (some (addr1, 2)) := by
    decide
  obtain ⟨s, hs, heq⟩ := Option.map_eq_some_iff.mp hrun
  have hok : checks step (fun s a => decide (Timely s a)) newNameServer reconnectLater := by
    decide
  exact ⟨s, hs, heq, registrations_stand (meets_of_checks (fun _ _ h => of_decide_eq_true h) hok)
    hs⟩

end CloudMQ.RouteRemovals
