import CloudMQ.Consumers

/-!
Which changes of a group its members are told of.

A call is made for a new channel, a channel that is gone and a topic that comes or goes. There is
none when a channel is taken over by another client, and none for what a scan removes.
-/

namespace CloudMQ.MembershipChanges

open CloudMQ.Utf8 CloudMQ.Tables CloudMQ.Consumers
open CloudMQ.Producers (Channel)

/-! ### The promise -/

/-- The client ids of a group; none when it is not in the table. -/
def clientIds (m : ConsumerManager) (group : Text) : Set Text :=
  {id | ∃ info, m.consumerTable.lookup group = some info ∧ id ∈ info.getAllClientId m.infos}

/-- The topics a group is subscribed to. -/
def topics (m : ConsumerManager) (group : Text) : Set Text :=
  {topic | ∃ info, m.consumerTable.lookup group = some info ∧ topic ∈ info.subscriptionTable}

def channels (m : ConsumerManager) (group : Text) : List Channel :=
  ((m.consumerTable.lookup group).map ConsumerGroupInfo.getAllChannel).getD []

/-- The operation made a call for every group that it changed, with the channels that are left. -/
def Announced (m : ConsumerManager) (o : Outcome) : Prop := ∀ group,
  clientIds o.manager group ≠ clientIds m group ∨ topics o.manager group ≠ topics m group →
  (group, channels o.manager group) ∈ o.consumerIdsChanged

/-! ### The condition -/

/-- The client id is that of another channel. -/
def HeldElsewhere (m : ConsumerManager) (info : ConsumerGroupInfo) (channel : Channel)
    (id : Text) : Prop :=
  ∃ channel' i, channel' ≠ channel ∧ info.channelInfoTable.lookup channel' = some i ∧
    (m.infos i).clientId = id

/-- A topic of the list is new to the group, or one of the group's is not in the list. -/
def Resubscribed (info : ConsumerGroupInfo) (subList : List SubscriptionData) : Prop :=
  (∃ sub ∈ subList, sub.topic ∉ info.subscriptionTable) ∨
  ∃ topic ∈ info.subscriptionTable, ∀ sub ∈ subList, sub.topic ≠ topic

/-- A client whose time is not up at the scan. -/
def Unexpired (m : ConsumerManager) (now : Channel → ℤ) (info : ConsumerGroupInfo)
    (channel : Channel) (i : ℕ) : Prop :=
  info.channelInfoTable.lookup channel = some i ∧ m.isExpired (now channel) i = false

/-- A client that takes the channel of another with a different id leaves the ids as they are, or
comes with a change of the topics. What a scan removes is held by a client that stays, and one
stays if there are topics. -/
def Announces (m : ConsumerManager) : Action → Prop
  | .registerConsumer _ group i subList =>
    ∀ info old, m.consumerTable.lookup group = some info →
      info.channelInfoTable.lookup (m.infos i).channel = some old →
      (m.infos old).clientId ≠ (m.infos i).clientId →
      (HeldElsewhere m info (m.infos i).channel (m.infos old).clientId ∧
        HeldElsewhere m info (m.infos i).channel (m.infos i).clientId) ∨
      Resubscribed info subList
  | .unregisterConsumer _ _ => True
  | .doChannelCloseEvent _ => True
  | .scanNotActiveChannel now =>
    ∀ group info, m.consumerTable.lookup group = some info →
      (∀ channel i, info.channelInfoTable.lookup channel = some i →
        ∃ channel' i', Unexpired m (now group) info channel' i' ∧
          (m.infos i').clientId = (m.infos i).clientId) ∧
      (info.subscriptionTable = ∅ ∨ ∃ channel i, Unexpired m (now group) info channel i)

/-! ### The ids and the topics -/

section

variable {m m' : ConsumerManager} {group : Text} {info : ConsumerGroupInfo}

lemma mem_clientIds (h : m.consumerTable.lookup group = some info) {id : Text} :
    id ∈ clientIds m group ↔ ∃ channel i,
      info.channelInfoTable.lookup channel = some i ∧ (m.infos i).clientId = id := by
  rw [← ConsumerGroupInfo.mem_getAllClientId]
  constructor
  · rintro ⟨info', hlookup, hid⟩
    cases h.symm.trans hlookup
    exact hid
  · exact fun hid => ⟨info, h, hid⟩

lemma mem_topics (h : m.consumerTable.lookup group = some info) {topic : Text} :
    topic ∈ topics m group ↔ topic ∈ info.subscriptionTable := by
  constructor
  · rintro ⟨info', hlookup, htopic⟩
    cases h.symm.trans hlookup
    exact htopic
  · exact fun htopic => ⟨info, h, htopic⟩

lemma clientIds_of_none (h : m.consumerTable.lookup group = none) : clientIds m group = ∅ := by
  rw [Set.eq_empty_iff_forall_notMem]
  rintro id ⟨info, hlookup, -⟩
  cases h.symm.trans hlookup

lemma topics_of_none (h : m.consumerTable.lookup group = none) : topics m group = ∅ := by
  rw [Set.eq_empty_iff_forall_notMem]
  rintro topic ⟨info, hlookup, -⟩
  cases h.symm.trans hlookup

/-- A group that is as before has its ids and its topics. -/
lemma unchanged (hid : ∀ i, (m'.infos i).clientId = (m.infos i).clientId)
    (h : m'.consumerTable.lookup group = m.consumerTable.lookup group) :
    ¬ (clientIds m' group ≠ clientIds m group ∨ topics m' group ≠ topics m group) := by
  have hids : ∀ info : ConsumerGroupInfo,
      info.getAllClientId m'.infos = info.getAllClientId m.infos := fun info => by
    simp only [ConsumerGroupInfo.getAllClientId, hid]
  simp only [clientIds, topics, h, hids, ne_eq, not_true_eq_false, or_self, not_false_eq_true]

section

variable {o : Outcome} (hid : ∀ i, (o.manager.infos i).clientId = (m.infos i).clientId)
  (hrest : ∀ group', group' ≠ group →
    o.manager.consumerTable.lookup group' = m.consumerTable.lookup group')
include hid hrest

/-- A call for the only group that an operation is about. -/
lemma announced_of_call (h : o.manager.consumerTable.lookup group = some info)
    (hcall : o.consumerIdsChanged = [(group, info.getAllChannel)]) : Announced m o := by
  intro group' hchanged
  by_cases heq : group' = group
  · rw [heq, hcall, channels, h]
    exact List.mem_singleton.mpr rfl
  · exact absurd hchanged (unchanged hid (hrest group' heq))

/-- Without a call the group must be as it was. -/
lemma announced_iff_of_quiet (hquiet : o.consumerIdsChanged = []) :
    Announced m o ↔
      clientIds o.manager group = clientIds m group ∧ topics o.manager group = topics m group := by
  constructor
  · intro hann
    by_contra hne
    have hmem := hann group (not_and_or.mp hne)
    rw [hquiet] at hmem
    cases hmem
  · rintro ⟨hids, htopics⟩ group' hchanged
    by_cases heq : group' = group
    · subst heq
      exact absurd hchanged (by simp [hids, htopics])
    · exact absurd hchanged (unchanged hid (hrest group' heq))

end

lemma keys_of_empty {t : Table Channel ℕ} (h : t = ∅) : t.keys = [] := by
  rw [h, AList.keys_empty]

/-! ### Unregistering and closing -/

lemma announced_unregister (m : ConsumerManager) (group : Text) (i : ℕ) :
    Announced m (m.unregisterConsumer group i) := by
  intro group' hchanged
  rw [ConsumerManager.unregisterConsumer] at hchanged ⊢
  split at hchanged
  · rename_i info hlookup
    by_cases heq : group' = group
    · subst heq
      refine List.mem_singleton.mpr (Prod.ext rfl ?_)
      dsimp only [channels]
      split_ifs with hempty
      · rw [AList.lookup_erase]
        exact (keys_of_empty hempty).symm
      · rw [AList.lookup_insert]
        rfl
    · refine absurd hchanged (unchanged (fun _ => rfl) ?_)
      dsimp only
      split_ifs
      · exact AList.lookup_erase_ne heq
      · exact AList.lookup_insert_ne heq
  · exact absurd hchanged (unchanged (fun _ => rfl) rfl)

lemma announced_close (m : ConsumerManager) (channel : Channel) :
    Announced m (m.doChannelCloseEvent channel) := by
  intro group hchanged
  have hlookup' : (m.doChannelCloseEvent channel).manager.consumerTable.lookup group = _ :=
    lookup_mapMaybe _ _ _
  cases hlookup : m.consumerTable.lookup group with
  | none =>
    rw [hlookup] at hlookup'
    exact absurd hchanged (unchanged (fun _ => rfl) (hlookup'.trans hlookup.symm))
  | some info =>
    rw [hlookup, Option.bind_some, ConsumerGroupInfo.doChannelCloseEvent] at hlookup'
    cases hfound : info.channelInfoTable.lookup channel with
    | none =>
      rw [hfound] at hlookup'
      exact absurd hchanged (unchanged (fun _ => rfl) (hlookup'.trans hlookup.symm))
    | some i =>
      refine List.mem_filterMap.mpr ⟨⟨group, info⟩, mem_entries_iff.mpr hlookup, ?_⟩
      rw [hfound] at hlookup'
      dsimp only [ConsumerGroupInfo.doChannelCloseEvent]
      rw [hfound, channels, hlookup']
      dsimp only
      rw [if_pos rfl]
      split_ifs with hempty
      · rw [Bool.true_and, decide_eq_true_eq] at hempty
        exact congrArg (fun l => some (group, l)) (keys_of_empty hempty)
      · rfl

/-! ### Registering -/

/-- The topics after the loop, and whether one of them is new. -/
lemma addSubscription_fold (subList : List SubscriptionData)
    (s : Table Text SubscriptionData × Bool) :
    (∀ topic, topic ∈ (subList.foldl ConsumerGroupInfo.addSubscription s).1 ↔
      topic ∈ s.1 ∨ ∃ sub ∈ subList, sub.topic = topic) ∧
    ((subList.foldl ConsumerGroupInfo.addSubscription s).2 = true ↔
      s.2 = true ∨ ∃ sub ∈ subList, sub.topic ∉ s.1) := by
  induction subList generalizing s with
  | nil => simp
  | cons sub subList ih =>
    have hkeys : ∀ topic, topic ∈ (ConsumerGroupInfo.addSubscription s sub).1 ↔
        topic ∈ s.1 ∨ sub.topic = topic := by
      intro topic
      rw [ConsumerGroupInfo.addSubscription]
      split
      · rw [AList.mem_insert, or_comm, eq_comm]
      · rename_i old hold
        have hmem : sub.topic ∈ s.1 := mem_iff_lookup.mpr ⟨old, hold⟩
        split_ifs
        · rw [AList.mem_insert, or_comm, eq_comm]
        · refine ⟨Or.inl, fun h => h.elim id fun heq => heq ▸ hmem⟩
    have hflag : (ConsumerGroupInfo.addSubscription s sub).2 = true ↔
        s.2 = true ∨ sub.topic ∉ s.1 := by
      rw [ConsumerGroupInfo.addSubscription]
      split
      · rename_i hnone
        simpa using Or.inr (AList.lookup_eq_none.mp hnone)
      · rename_i old hold
        have hmem : sub.topic ∈ s.1 := mem_iff_lookup.mpr ⟨old, hold⟩
        split_ifs <;> simp [hmem]
    obtain ⟨ihkeys, ihflag⟩ := ih (ConsumerGroupInfo.addSubscription s sub)
    rw [List.foldl_cons]
    refine ⟨fun topic => ?_, ?_⟩
    · rw [ihkeys, hkeys, or_assoc, List.exists_mem_cons_iff]
    · rw [ihflag, hflag, or_assoc, List.exists_mem_cons_iff]
      refine or_congr_right ?_
      constructor
      · rintro (h | ⟨sub', hmem, hnew⟩)
        · exact .inl h
        · exact .inr ⟨sub', hmem, fun h => hnew ((hkeys _).mpr (.inl h))⟩
      · rintro (h | ⟨sub', hmem, hnew⟩)
        · exact .inl h
        · by_cases heq : sub.topic = sub'.topic
          · exact .inl (heq ▸ hnew)
          · exact .inr ⟨sub', hmem, fun h => ((hkeys _).mp h).elim hnew heq⟩

lemma mem_updateSubscription (info : ConsumerGroupInfo) (subList : List SubscriptionData)
    (topic : Text) :
    topic ∈ (info.updateSubscription subList).1.subscriptionTable ↔
      ∃ sub ∈ subList, sub.topic = topic := by
  have hkeys := (addSubscription_fold subList (info.subscriptionTable, false)).1 topic
  dsimp only [ConsumerGroupInfo.updateSubscription, ConsumerGroupInfo.removeSubscriptions]
  rw [mem_iff_lookup, lookup_mapMaybe]
  constructor
  · rintro ⟨sub, hsub⟩
    obtain ⟨sub', -, hkept⟩ := Option.bind_eq_some_iff.mp hsub
    split_ifs at hkept with hin
    simpa using hin
  · intro hin
    obtain ⟨sub, hsub⟩ := mem_iff_lookup.mp (hkeys.mpr (.inr hin))
    refine ⟨sub, ?_⟩
    rw [hsub, Option.bind_some, if_pos (by simpa using hin)]

/-- The flag says that a topic has come or gone. -/
lemma updateSubscription_iff (info : ConsumerGroupInfo) (subList : List SubscriptionData) :
    (info.updateSubscription subList).2 = true ↔ Resubscribed info subList := by
  obtain ⟨hkeys, hflag⟩ := addSubscription_fold subList (info.subscriptionTable, false)
  dsimp only [ConsumerGroupInfo.updateSubscription, ConsumerGroupInfo.removeSubscriptions]
  rw [Bool.or_eq_true, hflag, Resubscribed, List.any_eq_true]
  simp only [Bool.false_eq_true, false_or]
  refine or_congr_right ?_
  constructor
  · rintro ⟨topic, hmem, hgone⟩
    have hgone' : ∀ sub ∈ subList, sub.topic ≠ topic := by simpa using hgone
    refine ⟨topic, ?_, hgone'⟩
    refine ((hkeys topic).mp (AList.mem_keys.mpr hmem)).resolve_right ?_
    rintro ⟨sub, hsub, heq⟩
    exact hgone' sub hsub heq
  · rintro ⟨topic, hmem, hgone⟩
    exact ⟨topic, AList.mem_keys.mp ((hkeys topic).mpr (.inl hmem)), by simpa using hgone⟩

/-- The ids of the other channels and the new one are the ids of before, or they are not. -/
lemma takeOver_iff {old i : ℕ} (hlookup : m.consumerTable.lookup group = some info)
    (hfound : info.channelInfoTable.lookup (m.infos i).channel = some old)
    (hne : (m.infos old).clientId ≠ (m.infos i).clientId)
    (hid : ∀ i, (m'.infos i).clientId = (m.infos i).clientId) {info' : ConsumerGroupInfo}
    (hlookup' : m'.consumerTable.lookup group = some info')
    (htable : info'.channelInfoTable = info.channelInfoTable.insert (m.infos i).channel i) :
    clientIds m' group = clientIds m group ↔
      HeldElsewhere m info (m.infos i).channel (m.infos old).clientId ∧
      HeldElsewhere m info (m.infos i).channel (m.infos i).clientId := by
  have hafter : ∀ id, id ∈ clientIds m' group ↔
      HeldElsewhere m info (m.infos i).channel id ∨ (m.infos i).clientId = id := by
    intro id
    rw [mem_clientIds hlookup', htable]
    constructor
    · rintro ⟨channel, j, hj, rfl⟩
      rw [lookup_insert_ite] at hj
      rw [hid]
      split_ifs at hj with heq
      · cases hj
        exact .inr rfl
      · exact .inl ⟨channel, j, heq, hj, rfl⟩
    · rintro (⟨channel, j, hch, hj, rfl⟩ | rfl)
      · exact ⟨channel, j, (AList.lookup_insert_ne hch).trans hj, hid j⟩
      · exact ⟨(m.infos i).channel, i, AList.lookup_insert _, hid i⟩
  have hbefore : ∀ id, id ∈ clientIds m group ↔
      HeldElsewhere m info (m.infos i).channel id ∨ (m.infos old).clientId = id := by
    intro id
    rw [mem_clientIds hlookup]
    constructor
    · rintro ⟨channel, j, hj, rfl⟩
      by_cases heq : channel = (m.infos i).channel
      · rw [heq, hfound] at hj
        cases hj
        exact .inr rfl
      · exact .inl ⟨channel, j, heq, hj, rfl⟩
    · rintro (⟨channel, j, -, hj, rfl⟩ | rfl)
      · exact ⟨channel, j, hj, rfl⟩
      · exact ⟨(m.infos i).channel, old, hfound, rfl⟩
  constructor
  · intro heq
    have hold := (hbefore (m.infos old).clientId).mpr (.inr rfl)
    have hnew := (hafter (m.infos i).clientId).mpr (.inr rfl)
    rw [← heq] at hold
    rw [heq] at hnew
    exact ⟨((hafter _).mp hold).resolve_right hne.symm, ((hbefore _).mp hnew).resolve_right hne⟩
  · rintro ⟨hold, hnew⟩
    ext id
    rw [hafter, hbefore]
    constructor
    · rintro (h | rfl)
      · exact .inl h
      · exact .inl hnew
    · rintro (h | rfl)
      · exact .inl h
      · exact .inl hold

/-- A group that is not resubscribed has the topics of the list already. -/
lemma mem_of_not_resubscribed {subList : List SubscriptionData}
    (h : ¬ Resubscribed info subList) (topic : Text) :
    (∃ sub ∈ subList, sub.topic = topic) ↔ topic ∈ info.subscriptionTable := by
  rw [Resubscribed] at h
  push Not at h
  constructor
  · rintro ⟨sub, hmem, rfl⟩
    exact h.1 sub hmem
  · exact h.2 topic

section

variable (m) (now : ℤ) (group) (i : ℕ) (subList : List SubscriptionData)

lemma register_calls : (m.registerConsumer now group i subList).consumerIdsChanged =
    if (m.joined group i).2.2 || ((m.joined group i).1.updateSubscription subList).2 then
      [(group, ((m.joined group i).1.updateSubscription subList).1.getAllChannel)] else [] :=
  rfl

lemma announced_of_joined (h : (m.joined group i).2.2 = true ∨
    Resubscribed (m.joined group i).1 subList) :
    Announced m (m.registerConsumer now group i subList) := by
  refine announced_of_call (m.register_clientId now group i subList)
    (m.register_lookup_ne now group i subList) (m.register_lookup now group i subList) ?_
  rw [register_calls, if_pos]
  rwa [Bool.or_eq_true, updateSubscription_iff]

lemma announced_iff_of_joined (h : ¬ ((m.joined group i).2.2 = true ∨
    Resubscribed (m.joined group i).1 subList)) :
    Announced m (m.registerConsumer now group i subList) ↔
      clientIds (m.registerConsumer now group i subList).manager group = clientIds m group ∧
      topics (m.registerConsumer now group i subList).manager group = topics m group := by
  refine announced_iff_of_quiet (m.register_clientId now group i subList)
    (m.register_lookup_ne now group i subList) ?_
  rw [register_calls, if_neg]
  rwa [Bool.or_eq_true, updateSubscription_iff]

end

lemma announced_register (m : ConsumerManager) (now : ℤ) (group : Text) (i : ℕ)
    (subList : List SubscriptionData) :
    Announced m (m.registerConsumer now group i subList) ↔
      Announces m (.registerConsumer now group i subList) := by
  have hann := announced_of_joined m group now i subList
  have hquiet := announced_iff_of_joined m group now i subList
  have hlookup' := m.register_lookup now group i subList
  have hid := m.register_clientId now group i subList
  cases hlookup : m.consumerTable.lookup group with
  | none =>
    refine iff_of_true (hann (.inl ?_)) fun info old h => ?_
    · rw [ConsumerManager.joined, hlookup]
      rfl
    · cases hlookup.symm.trans h
  | some info =>
    have hjoined : m.joined group i = info.updateChannel m.infos i := by
      rw [ConsumerManager.joined, hlookup, Option.getD_some]
    have hcond : Announces m (.registerConsumer now group i subList) ↔ ∀ old,
        info.channelInfoTable.lookup (m.infos i).channel = some old →
        (m.infos old).clientId ≠ (m.infos i).clientId →
        (HeldElsewhere m info (m.infos i).channel (m.infos old).clientId ∧
          HeldElsewhere m info (m.infos i).channel (m.infos i).clientId) ∨
        Resubscribed info subList := by
      constructor
      · exact fun h old => h info old hlookup
      · intro h info' old hinfo'
        cases hlookup.symm.trans hinfo'
        exact h old
    rw [hcond]
    rcases info.updateChannel_cases m.infos i with
      ⟨hupdate, hfound⟩ | ⟨old, hfound, ⟨hsame, hupdate⟩ | ⟨hother, hupdate⟩⟩
    · rw [hjoined, hupdate] at hann
      refine iff_of_true (hann (.inl rfl)) fun old h => ?_
      cases hfound.symm.trans h
    · rw [hjoined, hupdate] at hann hquiet hlookup'
      refine iff_of_true ?_ fun old' h hne => ?_
      · by_cases hres : Resubscribed info subList
        · exact hann (.inr hres)
        · refine (hquiet (by simp [hres])).mpr ⟨?_, ?_⟩
          · ext id
            rw [mem_clientIds hlookup', mem_clientIds hlookup]
            simp only [hid]
            rfl
          · ext topic
            rw [mem_topics hlookup', mem_topics hlookup, mem_updateSubscription,
              mem_of_not_resubscribed hres]
      · cases hfound.symm.trans h
        exact absurd hsame hne
    · rw [hjoined, hupdate] at hann hquiet hlookup'
      by_cases hres : Resubscribed info subList
      · exact iff_of_true (hann (.inr hres)) fun _ _ _ => .inr hres
      · have hids := takeOver_iff hlookup hfound hother hid hlookup' rfl
        have htopics : topics (m.registerConsumer now group i subList).manager group =
            topics m group := by
          ext topic
          rw [mem_topics hlookup', mem_topics hlookup, mem_updateSubscription]
          exact mem_of_not_resubscribed hres topic
        have hnot : ¬ (false = true ∨ Resubscribed info subList) := by simpa using hres
        rw [hquiet hnot, hids]
        constructor
        · rintro ⟨hheld, -⟩ old' h -
          cases hfound.symm.trans h
          exact .inl hheld
        · exact fun h => ⟨(h old hfound hother).resolve_right hres, htopics⟩

/-! ### Scanning -/

lemma scan_lookup (m : ConsumerManager) (now : Text → Channel → ℤ) (group : Text) :
    (m.scanNotActiveChannel now).manager.consumerTable.lookup group =
      (m.consumerTable.lookup group).bind fun info =>
        if (m.removeExpired (now group) info).channelInfoTable = ∅ then none
        else some (m.removeExpired (now group) info) :=
  lookup_mapMaybe _ _ _

lemma lookup_removeExpired (m : ConsumerManager) (now : Channel → ℤ) (info : ConsumerGroupInfo)
    (channel : Channel) (i : ℕ) :
    (m.removeExpired now info).channelInfoTable.lookup channel = some i ↔
      Unexpired m now info channel i := by
  rw [ConsumerManager.removeExpired, Unexpired]
  dsimp only
  rw [lookup_mapMaybe, Option.bind_eq_some_iff]
  constructor
  · rintro ⟨i', hlookup, hkept⟩
    split_ifs at hkept with hexp
    cases hkept
    exact ⟨hlookup, Bool.eq_false_iff.mpr hexp⟩
  · rintro ⟨hlookup, hlive⟩
    exact ⟨i, hlookup, if_neg (Bool.eq_false_iff.mp hlive)⟩

/-- A group loses its ids and its topics with its last channel. -/
lemma scan_ids (m : ConsumerManager) (now : Text → Channel → ℤ) (group : Text)
    (hlookup : m.consumerTable.lookup group = some info) (id : Text) :
    id ∈ clientIds (m.scanNotActiveChannel now).manager group ↔
      ∃ channel i, Unexpired m (now group) info channel i ∧ (m.infos i).clientId = id := by
  have hafter := scan_lookup m now group
  rw [hlookup, Option.bind_some] at hafter
  split_ifs at hafter with hempty
  · rw [clientIds_of_none hafter]
    refine iff_of_false (Set.notMem_empty id) ?_
    rintro ⟨channel, i, hlive, -⟩
    rw [← lookup_removeExpired, hempty] at hlive
    cases hlive
  · rw [mem_clientIds hafter]
    simp only [lookup_removeExpired]
    rfl

lemma scan_topics (m : ConsumerManager) (now : Text → Channel → ℤ) (group : Text)
    (hlookup : m.consumerTable.lookup group = some info) (topic : Text) :
    topic ∈ topics (m.scanNotActiveChannel now).manager group ↔
      topic ∈ info.subscriptionTable ∧ ∃ channel i, Unexpired m (now group) info channel i := by
  have hafter := scan_lookup m now group
  rw [hlookup, Option.bind_some] at hafter
  split_ifs at hafter with hempty
  · rw [topics_of_none hafter]
    refine iff_of_false (Set.notMem_empty topic) ?_
    rintro ⟨-, channel, i, hlive⟩
    rw [← lookup_removeExpired, hempty] at hlive
    cases hlive
  · rw [mem_topics hafter]
    obtain ⟨channel, i, hlive⟩ := ne_empty_iff.mp hempty
    exact ⟨fun h => ⟨h, channel, i, (lookup_removeExpired ..).mp hlive⟩, fun h => h.1⟩

lemma announced_scan (m : ConsumerManager) (now : Text → Channel → ℤ) :
    Announced m (m.scanNotActiveChannel now) ↔ Announces m (.scanNotActiveChannel now) := by
  constructor
  · intro hann group info hlookup
    have hsame : clientIds (m.scanNotActiveChannel now).manager group = clientIds m group ∧
        topics (m.scanNotActiveChannel now).manager group = topics m group := by
      by_contra hne
      cases hann group (not_and_or.mp hne)
    obtain ⟨hids, htopics⟩ := hsame
    refine ⟨fun channel i hi => ?_, ?_⟩
    · have hmem := (mem_clientIds hlookup).mpr ⟨channel, i, hi, rfl⟩
      rw [← hids] at hmem
      exact (scan_ids m now group hlookup _).mp hmem
    · by_cases hempty : info.subscriptionTable = ∅
      · exact .inl hempty
      · obtain ⟨topic, sub, hsub⟩ := ne_empty_iff.mp hempty
        have hmem := (mem_topics hlookup).mpr (mem_iff_lookup.mpr ⟨sub, hsub⟩)
        rw [← htopics] at hmem
        exact .inr ((scan_topics m now group hlookup topic).mp hmem).2
  · intro hcond group hchanged
    exfalso
    cases hlookup : m.consumerTable.lookup group with
    | none =>
      refine absurd hchanged (unchanged (fun _ => rfl) ?_)
      rw [scan_lookup, hlookup]
      rfl
    | some info =>
      obtain ⟨hheld, hlive⟩ := hcond group info hlookup
      refine hchanged.elim (fun h => h ?_) fun h => h ?_
      · ext id
        rw [scan_ids m now group hlookup, mem_clientIds hlookup]
        constructor
        · rintro ⟨channel, i, hi, hid⟩
          exact ⟨channel, i, hi.1, hid⟩
        · rintro ⟨channel, i, hi, rfl⟩
          exact hheld channel i hi
      · ext topic
        rw [scan_topics m now group hlookup, mem_topics hlookup]
        refine ⟨And.left, fun hmem => ⟨hmem, hlive.resolve_left ?_⟩⟩
        rintro hempty
        rw [hempty] at hmem
        exact AList.notMem_empty topic hmem

end

/-- **Changes of membership.** An operation calls for every group that it changes exactly when no
client takes a channel over from another with a change of the ids alone, and a scan finds nothing
that counts. -/
theorem changes_announced (m : ConsumerManager) (a : Action) :
    Announced m (perform m a) ↔ Announces m a := by
  cases a with
  | registerConsumer now group i subList => exact announced_register m now group i subList
  | unregisterConsumer group i => exact iff_of_true (announced_unregister m group i) trivial
  | doChannelCloseEvent channel => exact iff_of_true (announced_close m channel) trivial
  | scanNotActiveChannel now => exact announced_scan m now

/-- One client of one group, last seen at zero. -/
def silent : ConsumerManager where
  infos := fun _ => ⟨1, ['c'], 0⟩
  consumerTable := AList.singleton ['g'] { channelInfoTable := AList.singleton 1 0 }

theorem changes_unannounced : ¬ ∀ m a, Announced m (perform m a) := by
  intro h
  have hcall := h silent (.scanNotActiveChannel fun _ _ => 120001) ['g']
  have hgone : (silent.scanNotActiveChannel fun _ _ => 120001).manager.consumerTable.lookup ['g'] =
      none := by rw [scan_lookup]; rfl
  refine List.not_mem_nil (hcall (.inl fun hsame => ?_))
  have hnone : clientIds silent ['g'] = ∅ := hsame.symm.trans (clientIds_of_none hgone)
  have hmem : ['c'] ∈ clientIds silent ['g'] := ⟨_, rfl, List.mem_singleton.mpr rfl⟩
  rw [hnone] at hmem
  exact hmem

end CloudMQ.MembershipChanges
