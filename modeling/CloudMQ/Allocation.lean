import CloudMQ.Consumers
import CloudMQ.Runs
import CloudMQ.Shares
import CloudMQ.TopicRoutes

/-!
Dividing the queues of a topic among the clients of a group.

Every client divides for itself, from the list of client ids that the broker has for the group. The
list has one element for each channel.
-/

namespace CloudMQ.Allocation

open CloudMQ.Utf8 CloudMQ.Strings CloudMQ.Tables CloudMQ.Runs CloudMQ.Shares CloudMQ.Consumers
open CloudMQ.TopicRoutes (MessageQueue)
open CloudMQ.Producers (Channel)

/-! ### The strategy -/

section

variable (mqSize cidSize index : ℕ)

def averageSize : ℕ :=
  let mod := mqSize % cidSize
  if mqSize ≤ cidSize then 1
  else if 0 < mod ∧ index < mod then mqSize / cidSize + 1 else mqSize / cidSize

def startIndex : ℕ :=
  let mod := mqSize % cidSize
  if 0 < mod ∧ index < mod then index * averageSize mqSize cidSize index
  else index * averageSize mqSize cidSize index + mod

/-- Negative when the clients before have everything. -/
def range : ℤ := min (averageSize mqSize cidSize index) (mqSize - startIndex mqSize cidSize index)

end

/-- `AllocateMessageQueueAveragely`; an error is an `IllegalArgumentException`. -/
def allocate (currentCID : Text) (mqAll : List MessageQueue) (cidAll : List Text) :
    Except String (List MessageQueue) :=
  if length currentCID < 1 then .error "currentCID is empty"
  else if mqAll.isEmpty then .error "mqAll is null or mqAll empty"
  else if cidAll.isEmpty then .error "cidAll is null or cidAll empty"
  else if currentCID ∉ cidAll then .ok []
  else
    let index := cidAll.idxOf currentCID
    let start := startIndex mqAll.length cidAll.length index
    .ok <| (List.range (range mqAll.length cidAll.length index).toNat).flatMap fun i =>
      mqAll[(start + i) % mqAll.length]?.toList

/-- `compareTo` of two queues. -/
def compareTo (a o : MessageQueue) : Ordering :=
  (compare (utf16 a.topic) (utf16 o.topic)).then <|
    (compare (utf16 a.brokerName) (utf16 o.brokerName)).then (compare (a.queueId - o.queueId) 0)

def sortQueues (mqSet : List MessageQueue) : List MessageQueue :=
  mqSet.mergeSort fun a o => (compareTo a o).isLE

def sortClientIds (cidAll : List Text) : List Text :=
  cidAll.mergeSort fun a o => (compare (utf16 a) (utf16 o)).isLE

lemma sortQueues_perm (mqSet : List MessageQueue) : (sortQueues mqSet).Perm mqSet :=
  List.mergeSort_perm ..

lemma sortClientIds_perm (cidAll : List Text) : (sortClientIds cidAll).Perm cidAll :=
  List.mergeSort_perm ..

/-- The part of `rebalanceByTopic` that divides. -/
def allocateResult (clientId : Text) (mqSet : List MessageQueue) (cidAll : List Text) :
    Except String (List MessageQueue) :=
  allocate clientId (sortQueues mqSet) (sortClientIds cidAll)

/-! ### What a share is -/

section

variable {m n i : ℕ}

/-- With fewer queues than clients, the first ones have one each. -/
lemma shares_of_lt (h : m < n) : start m n i = min i m ∧ averageSize m n i = 1 ∧
    startIndex m n i = if i < m then i else i + m := by
  have haverage : averageSize m n i = 1 := if_pos h.le
  rw [start, startIndex, haverage, Nat.div_eq_of_lt h, Nat.mod_eq_of_lt h]
  refine ⟨by omega, rfl, ?_⟩
  split_ifs <;> omega

lemma shares_of_ge (h : n ≤ m) (hn : 0 < n) :
    start m n (i + 1) = start m n i + averageSize m n i ∧ startIndex m n i = start m n i := by
  have haverage : averageSize m n i = m / n + if i < m % n then 1 else 0 := by
    rw [averageSize]
    rcases h.eq_or_lt with rfl | hlt
    · rw [if_pos le_rfl, Nat.div_self hn, Nat.mod_self, if_neg (Nat.not_lt_zero i)]
    · rw [if_neg hlt.not_ge]
      split_ifs <;> omega
  refine ⟨by rw [start_succ, haverage, Nat.add_assoc], ?_⟩
  rw [startIndex, haverage, start]
  split_ifs with hfirst hlt hlt
  · rw [min_eq_left hlt.le, Nat.mul_add, Nat.mul_one]
  · omega
  · omega
  · rw [min_eq_right (by omega), Nat.add_zero]

lemma range_toNat (hi : i < n) : (range m n i).toNat = start m n (i + 1) - start m n i := by
  rw [range]
  rcases Nat.lt_or_ge m n with hlt | hge
  · rw [(shares_of_lt hlt).1, (shares_of_lt hlt).1, (shares_of_lt hlt).2.1,
      (shares_of_lt hlt).2.2]
    split_ifs <;> omega
  · have hshare := shares_of_ge (i := i) hge (by omega)
    have hend : start m n (i + 1) ≤ m := start_le hi (by omega)
    rw [hshare.2]
    omega

lemma startIndex_eq (hi : i < n) (h : start m n i < start m n (i + 1)) :
    startIndex m n i = start m n i := by
  rcases Nat.lt_or_ge m n with hlt | hge
  · rw [(shares_of_lt hlt).1, (shares_of_lt hlt).1] at h
    rw [(shares_of_lt hlt).1, (shares_of_lt hlt).2.2, if_pos (by omega)]
    omega
  · exact (shares_of_ge hge (by omega)).2

end

/-- A client has the queues of its share. -/
lemma mem_allocate {cid : Text} {mqAll : List MessageQueue} {cidAll : List Text}
    (hcid : cid ∈ cidAll) (mq : MessageQueue) :
    (∃ result, allocate cid mqAll cidAll = .ok result ∧ mq ∈ result) ↔
      cid ≠ [] ∧ ∃ j, mqAll[j]? = some mq ∧
        start mqAll.length cidAll.length (cidAll.idxOf cid) ≤ j ∧
        j < start mqAll.length cidAll.length (cidAll.idxOf cid + 1) := by
  have hindex : cidAll.idxOf cid < cidAll.length := List.idxOf_lt_length_of_mem hcid
  rw [allocate]
  simp only [length_lt_one_iff, List.isEmpty_iff]
  by_cases hempty : cid = []
  · rw [if_pos hempty]
    exact iff_of_false (fun ⟨_, h, _⟩ => nomatch h) fun h => h.1 hempty
  rw [if_neg hempty]
  by_cases hmq : mqAll = []
  · rw [if_pos hmq, hmq]
    exact iff_of_false (fun ⟨_, h, _⟩ => nomatch h) fun ⟨_, _, h, _⟩ => nomatch h
  rw [if_neg hmq, if_neg (List.ne_nil_of_mem hcid), if_neg (not_not.mpr hcid)]
  rw [range_toNat hindex]
  have hend : start mqAll.length cidAll.length (cidAll.idxOf cid + 1) ≤ mqAll.length :=
    start_le hindex (by omega)
  constructor
  · rintro ⟨result, heq, hmem⟩
    cases heq
    obtain ⟨i, hi, hget⟩ := List.mem_flatMap.mp hmem
    rw [List.mem_range] at hi
    rw [startIndex_eq hindex (by omega), Nat.mod_eq_of_lt (by omega),
      Option.mem_toList] at hget
    exact ⟨hempty, _, hget, by omega, by omega⟩
  · rintro ⟨-, j, hget, hge, hlt⟩
    refine ⟨_, rfl, List.mem_flatMap.mpr
      ⟨j - start mqAll.length cidAll.length (cidAll.idxOf cid), ?_, ?_⟩⟩
    · rw [List.mem_range]
      omega
    · rw [startIndex_eq hindex (by omega), Nat.add_sub_cancel' hge, Nat.mod_eq_of_lt (by omega),
        Option.mem_toList]
      exact hget

/-! ### The promise -/

/-- The client computes a division that gives it the queue. -/
def Takes (cidAll : List Text) (mqSet : List MessageQueue) (mq : MessageQueue) (cid : Text) :
    Prop :=
  ∃ result, allocateResult cid mqSet cidAll = .ok result ∧ mq ∈ result

/-- Every queue of every set of a topic's queues is taken by exactly one of the clients. -/
def Divided (cidAll : List Text) : Prop :=
  ∀ (topic : Text) (mqSet : List MessageQueue), mqSet.Nodup → (∀ mq ∈ mqSet, mq.topic = topic) →
    ∀ mq ∈ mqSet, ∃! cid, cid ∈ cidAll ∧ Takes cidAll mqSet mq cid

/-- No two channels have the same client id, and none has the empty one. -/
def Distinct (infos : Infos) (channelInfoTable : Table Channel ℕ) : Prop :=
  (∀ channel channel' i i', channelInfoTable.lookup channel = some i →
    channelInfoTable.lookup channel' = some i' → (infos i).clientId = (infos i').clientId →
    channel = channel') ∧
  ∀ channel i, channelInfoTable.lookup channel = some i → (infos i).clientId ≠ []

/-! ### One client for each queue -/

lemma takes_iff {cidAll : List Text} {mqSet : List MessageQueue} {mq : MessageQueue} {cid : Text}
    (hcid : cid ∈ cidAll) : Takes cidAll mqSet mq cid ↔
      cid ≠ [] ∧ ∃ j, (sortQueues mqSet)[j]? = some mq ∧
        start mqSet.length cidAll.length ((sortClientIds cidAll).idxOf cid) ≤ j ∧
        j < start mqSet.length cidAll.length ((sortClientIds cidAll).idxOf cid + 1) := by
  have hmem := @mem_allocate cid (sortQueues mqSet) (sortClientIds cidAll)
    ((sortClientIds_perm cidAll).mem_iff.mpr hcid) mq
  rwa [(sortQueues_perm mqSet).length_eq, (sortClientIds_perm cidAll).length_eq] at hmem

/-- Ids that are all different and not empty. -/
lemma divided_of_nodup {cidAll : List Text} (hne : cidAll ≠ []) (hnodup : cidAll.Nodup)
    (hempty : [] ∉ cidAll) : Divided cidAll := by
  intro topic mqSet hmqs htopic mq hmq
  have hids := sortClientIds_perm cidAll
  have hqueues := sortQueues_perm mqSet
  obtain ⟨j, hj⟩ := List.mem_iff_getElem?.mp (hqueues.mem_iff.mpr hmq)
  have hjlt : j < (sortQueues mqSet).length := (List.getElem?_eq_some_iff.mp hj).1
  obtain ⟨i, ⟨hi, hshare⟩, huniq⟩ := existsUnique_share (List.length_pos_iff.mpr hne)
    (hjlt.trans_eq hqueues.length_eq)
  have hilt : i < (sortClientIds cidAll).length := hi.trans_eq hids.length_eq.symm
  have hidx : (sortClientIds cidAll).idxOf (sortClientIds cidAll)[i] = i :=
    List.Nodup.idxOf_getElem (hids.nodup_iff.mpr hnodup) i hilt
  have hmem : (sortClientIds cidAll)[i] ∈ cidAll := hids.mem_iff.mp (List.getElem_mem hilt)
  refine ⟨(sortClientIds cidAll)[i], ⟨hmem, (takes_iff hmem).mpr ⟨?_, j, hj, ?_⟩⟩, ?_⟩
  · exact fun h => hempty (h ▸ hmem)
  · rwa [hidx]
  · rintro cid ⟨hcid, htakes⟩
    obtain ⟨-, j', hj', hshare'⟩ := (takes_iff hcid).mp htakes
    obtain rfl : j = j' :=
      (List.getElem?_inj hjlt (hqueues.nodup_iff.mpr hmqs)).mp (hj.trans hj'.symm)
    have hlt := List.idxOf_lt_length_of_mem (hids.mem_iff.mpr hcid)
    have heq := huniq _ ⟨hlt.trans_eq hids.length_eq, hshare'⟩
    simp only [← heq, List.getElem_idxOf]

/-- As many queues as there are clients, of brokers with names of one letter. -/
def brokerQueues (n : ℕ) : List MessageQueue :=
  (List.range n).map fun k => ⟨[], List.replicate k 'b', 0⟩

lemma nodup_brokerQueues (n : ℕ) : (brokerQueues n).Nodup := by
  refine List.Nodup.map ?_ List.nodup_range
  intro k k' h
  have hname : List.replicate k 'b' = List.replicate k' 'b' := congrArg MessageQueue.brokerName h
  simpa using congrArg List.length hname

/-- A queue for each place of the list: every place is that of its client, who is not nameless. -/
lemma places_of_divided {cidAll : List Text} (h : Divided cidAll) {p : ℕ}
    (hp : p < (sortClientIds cidAll).length) :
    (sortClientIds cidAll)[p] ≠ [] ∧
      (sortClientIds cidAll).idxOf (sortClientIds cidAll)[p] = p := by
  have hqueues := sortQueues_perm (brokerQueues cidAll.length)
  have hlen : (brokerQueues cidAll.length).length = cidAll.length := by
    rw [brokerQueues, List.length_map, List.length_range]
  rw [(sortClientIds_perm cidAll).length_eq] at hp
  have hpq : p < (sortQueues (brokerQueues cidAll.length)).length := by
    rwa [hqueues.length_eq, hlen]
  obtain ⟨cid, ⟨hcid, htakes⟩, -⟩ := h [] (brokerQueues cidAll.length)
    (nodup_brokerQueues _) (fun mq hmq => by
      obtain ⟨k, -, rfl⟩ := List.mem_map.mp hmq
      rfl) _ (hqueues.mem_iff.mp (List.getElem_mem hpq))
  obtain ⟨hempty, j, hj, hge, hlt⟩ := (takes_iff hcid).mp htakes
  obtain rfl : p = j := (List.getElem?_inj hpq (hqueues.nodup_iff.mpr (nodup_brokerQueues _))).mp
    ((List.getElem?_eq_getElem hpq).trans hj.symm)
  rw [hlen, start_self (by omega)] at hge hlt
  obtain rfl : (sortClientIds cidAll).idxOf cid = p := by omega
  rw [List.getElem_idxOf]
  exact ⟨hempty, rfl⟩

lemma divided_iff {cidAll : List Text} (hne : cidAll ≠ []) :
    Divided cidAll ↔ cidAll.Nodup ∧ [] ∉ cidAll := by
  refine ⟨fun h => ⟨?_, fun hempty => ?_⟩, fun h => divided_of_nodup hne h.1 h.2⟩
  · rw [← (sortClientIds_perm cidAll).nodup_iff, List.Nodup, List.pairwise_iff_getElem]
    intro p p' hp hp' hlt heq
    have hplace := (places_of_divided h hp).2
    rw [heq, (places_of_divided h hp').2] at hplace
    omega
  · obtain ⟨p, hp, heq⟩ := List.mem_iff_getElem.mp ((sortClientIds_perm cidAll).mem_iff.mpr hempty)
    exact (places_of_divided h hp).1 heq

/-- The list of client ids, from the table of channels. -/
lemma distinct_iff {info : ConsumerGroupInfo} {infos : Infos} :
    Distinct infos info.channelInfoTable ↔
      (info.getAllClientId infos).Nodup ∧ [] ∉ info.getAllClientId infos := by
  have hentries : info.channelInfoTable.entries.Nodup :=
    List.Nodup.of_map Sigma.fst info.channelInfoTable.keys_nodup
  rw [ConsumerGroupInfo.getAllClientId, List.nodup_map_iff_inj_on hentries]
  refine and_congr ⟨fun h => ?_, fun h => ?_⟩ ⟨fun h hmem => ?_, fun h => ?_⟩
  · rintro ⟨channel, i⟩ hi ⟨channel', i'⟩ hi' heq
    rw [mem_entries_iff] at hi hi'
    obtain rfl := h channel channel' i i' hi hi' heq
    cases hi.symm.trans hi'
    rfl
  · intro channel channel' i i' hi hi' heq
    exact congrArg Sigma.fst (h _ (mem_entries_iff.mpr hi) _ (mem_entries_iff.mpr hi') heq)
  · obtain ⟨⟨channel, i⟩, hi, heq⟩ := List.mem_map.mp hmem
    exact h channel i (mem_entries_iff.mp hi) heq
  · exact fun channel i hi heq => h (List.mem_map.mpr ⟨_, mem_entries_iff.mpr hi, heq⟩)

/-! ### Runs of the broker -/

def step (m : ConsumerManager) (a : Action) : Option ConsumerManager := some (perform m a).manager

/-- The queues of every topic are divided among the clients of every group. -/
def Settled (m : ConsumerManager) : Prop :=
  ∀ group info, m.consumerTable.lookup group = some info → Divided (info.getAllClientId m.infos)

/-- A registration is of a client with an id, which no other channel of the group has. -/
def Fresh (m : ConsumerManager) : Action → Prop
  | .registerConsumer _ group i _ => (m.infos i).clientId ≠ [] ∧
    ∀ info channel j, m.consumerTable.lookup group = some info →
      info.channelInfoTable.lookup channel = some j →
      (m.infos j).clientId = (m.infos i).clientId → channel = (m.infos i).channel
  | _ => True

/-- A group in the table has a channel. -/
def Populated (m : ConsumerManager) : Prop :=
  ∀ group info, m.consumerTable.lookup group = some info → info.channelInfoTable ≠ ∅

def AllDistinct (m : ConsumerManager) : Prop :=
  ∀ group info, m.consumerTable.lookup group = some info → Distinct m.infos info.channelInfoTable

structure Inv (m : ConsumerManager) : Prop where
  populated : Populated m
  distinct : AllDistinct m

lemma inv_new (infos : Infos) : Inv { infos } where
  populated := fun _ _ h => absurd h.symm (Option.some_ne_none _)
  distinct := fun _ _ h => absurd h.symm (Option.some_ne_none _)

lemma settled_iff {m : ConsumerManager} (h : Populated m) : Settled m ↔ AllDistinct m := by
  refine forall_congr' fun group => forall_congr' fun info => forall_congr' fun hlookup => ?_
  obtain ⟨channel, i, hi⟩ := ne_empty_iff.mp (h group info hlookup)
  rw [distinct_iff]
  refine divided_iff (List.ne_nil_of_mem (a := (m.infos i).clientId) ?_)
  exact ConsumerGroupInfo.mem_getAllClientId.mpr ⟨channel, i, hi, rfl⟩

/-- What an operation leaves of a group: what a registration makes of it, or some of its
channels. -/
lemma step_cases (m : ConsumerManager) (a : Action) {group : Text} {info : ConsumerGroupInfo}
    (hlookup : (perform m a).manager.consumerTable.lookup group = some info) :
    (∃ now i subList, a = .registerConsumer now group i subList ∧
      info.channelInfoTable = (m.joined group i).1.channelInfoTable) ∨
    ∃ old, m.consumerTable.lookup group = some old ∧
      (info.channelInfoTable = old.channelInfoTable ∨ info.channelInfoTable ≠ ∅) ∧
      ∀ channel i, info.channelInfoTable.lookup channel = some i →
        old.channelInfoTable.lookup channel = some i := by
  cases a with
  | registerConsumer now group' i subList =>
    by_cases heq : group = group'
    · subst heq
      cases (m.register_lookup now group i subList).symm.trans hlookup
      exact .inl ⟨now, i, subList, rfl, rfl⟩
    · rw [perform, m.register_lookup_ne now group' i subList group heq] at hlookup
      exact .inr ⟨info, hlookup, .inl rfl, fun _ _ h => h⟩
  | unregisterConsumer group' i =>
    rw [perform, ConsumerManager.unregisterConsumer] at hlookup
    split at hlookup
    · rename_i old hold
      dsimp only at hlookup
      split_ifs at hlookup with hempty
      · rw [lookup_erase_ite] at hlookup
        split_ifs at hlookup
        exact .inr ⟨info, hlookup, .inl rfl, fun _ _ h => h⟩
      · rw [lookup_insert_ite] at hlookup
        split_ifs at hlookup with heq
        · cases hlookup
          refine .inr ⟨old, heq ▸ hold, .inr hempty, fun channel j h => ?_⟩
          rw [ConsumerGroupInfo.unregisterChannel, lookup_erase_ite] at h
          split_ifs at h
          exact h
        · exact .inr ⟨info, hlookup, .inl rfl, fun _ _ h => h⟩
    · exact .inr ⟨info, hlookup, .inl rfl, fun _ _ h => h⟩
  | doChannelCloseEvent channel =>
    rw [perform, ConsumerManager.doChannelCloseEvent, lookup_mapMaybe,
      Option.bind_eq_some_iff] at hlookup
    obtain ⟨old, hold, hkept⟩ := hlookup
    dsimp only [ConsumerGroupInfo.doChannelCloseEvent] at hkept
    cases hfound : old.channelInfoTable.lookup channel with
    | none =>
      rw [hfound] at hkept
      cases hkept
      exact .inr ⟨_, hold, .inl rfl, fun _ _ h => h⟩
    | some i =>
      rw [hfound] at hkept
      dsimp only at hkept
      split_ifs at hkept with hempty
      cases hkept
      refine .inr ⟨old, hold, .inr (by simpa using hempty), fun channel' j h => ?_⟩
      rw [lookup_erase_ite] at h
      split_ifs at h
      exact h
  | scanNotActiveChannel now =>
    rw [perform, ConsumerManager.scanNotActiveChannel, lookup_mapMaybe,
      Option.bind_eq_some_iff] at hlookup
    obtain ⟨old, hold, hkept⟩ := hlookup
    dsimp only at hkept
    split_ifs at hkept with hempty
    cases hkept
    refine .inr ⟨old, hold, .inr hempty, fun channel i h => ?_⟩
    rw [ConsumerManager.removeExpired, lookup_mapMaybe, Option.bind_eq_some_iff] at h
    obtain ⟨i', hi', hlive⟩ := h
    split_ifs at hlive
    cases hlive
    exact hi'

lemma perform_clientId (m : ConsumerManager) (a : Action) (i : ℕ) :
    ((perform m a).manager.infos i).clientId = (m.infos i).clientId := by
  cases a with
  | registerConsumer now group i' subList => exact m.register_clientId now group i' subList i
  | unregisterConsumer group i' =>
    rw [perform, ConsumerManager.unregisterConsumer]
    split <;> rfl
  | doChannelCloseEvent channel => rfl
  | scanNotActiveChannel now => rfl

lemma populated_step (m : ConsumerManager) (a : Action) (h : Populated m) :
    Populated (perform m a).manager := by
  intro group info hlookup
  rcases step_cases m a hlookup with ⟨_, i, _, -, htable⟩ | ⟨old, hold, heq | hne, -⟩
  · obtain ⟨⟨j, hj, -⟩, -⟩ := m.joined_lookup group i
    exact htable ▸ ne_empty_iff.mpr ⟨_, j, hj⟩
  · exact heq ▸ h group old hold
  · exact hne

lemma distinct_step (m : ConsumerManager) (a : Action) (h : AllDistinct m) (hok : Fresh m a) :
    AllDistinct (perform m a).manager := by
  intro group info hlookup
  simp only [Distinct, perform_clientId]
  rcases step_cases m a hlookup with ⟨_, i, _, rfl, htable⟩ | ⟨old, hold, -, hsub⟩
  · obtain ⟨⟨own, hown, hid⟩, hrest⟩ := m.joined_lookup group i
    obtain ⟨hne, hfresh⟩ := hok
    rw [htable]
    refine ⟨fun channel channel' j j' hj hj' heq => ?_, fun channel j hj => ?_⟩
    · by_cases hc : channel = (m.infos i).channel
      · by_cases hc' : channel' = (m.infos i).channel
        · exact hc.trans hc'.symm
        · obtain ⟨old, hold, hj'⟩ := (hrest channel' hc' j').mp hj'
          rw [hc, hown] at hj
          cases hj
          exact absurd (hfresh old channel' j' hold hj' (heq.symm.trans hid)) hc'
      · obtain ⟨old, hold, hj⟩ := (hrest channel hc j).mp hj
        by_cases hc' : channel' = (m.infos i).channel
        · rw [hc', hown] at hj'
          cases hj'
          exact absurd (hfresh old channel j hold hj (heq.trans hid)) hc
        · obtain ⟨old', hold', hj'⟩ := (hrest channel' hc' j').mp hj'
          cases hold.symm.trans hold'
          exact (h group old hold).1 channel channel' j j' hj hj' heq
    · by_cases hc : channel = (m.infos i).channel
      · rw [hc, hown] at hj
        cases hj
        rwa [hid]
      · obtain ⟨old, hold, hj⟩ := (hrest channel hc j).mp hj
        exact (h group old hold).2 channel j hj
  · obtain ⟨hdistinct, hempty⟩ := h group old hold
    exact ⟨fun channel channel' i i' hi hi' => hdistinct channel channel' i i'
      (hsub channel i hi) (hsub channel' i' hi'), fun channel i hi => hempty channel i
      (hsub channel i hi)⟩

lemma fresh_of_distinct (m : ConsumerManager) (a : Action)
    (h : AllDistinct (perform m a).manager) : Fresh m a := by
  cases a with
  | registerConsumer now group i subList =>
    obtain ⟨⟨own, hown, hid⟩, hrest⟩ := m.joined_lookup group i
    have hgroup := h group _ (m.register_lookup now group i subList)
    simp only [Distinct, perform_clientId] at hgroup
    obtain ⟨hdistinct, hempty⟩ := hgroup
    refine ⟨hid ▸ hempty _ own hown, fun info channel j hlookup hj heq => ?_⟩
    by_contra hne
    exact hne (hdistinct channel _ j own ((hrest channel hne j).mpr ⟨info, hlookup, hj⟩) hown
      (heq.trans hid.symm))
  | unregisterConsumer group i => trivial
  | doChannelCloseEvent channel => trivial
  | scanNotActiveChannel now => trivial

/-- **Dividing the queues.** In every state of a run every queue of a topic has exactly one client
of each group exactly when all registrations of the run are of clients with an id that no other
channel of the group has. -/
theorem queues_divided (infos : Infos) (as : List Action) :
    (∀ as', as' <+: as → ∀ m, run step { infos } as' = some m → Settled m) ↔
      Meets step Fresh { infos } as := by
  refine holds_along_iff (fun m a m' h hok hs => ?_)
    (fun m h => (settled_iff h.populated).mpr h.distinct) (fun m a h hsettled => ?_)
    (inv_new infos)
  · cases hs
    exact ⟨populated_step m a h.populated, distinct_step m a h.distinct hok⟩
  · exact fresh_of_distinct m a
      ((settled_iff (populated_step m a h.populated)).mp (hsettled _ rfl))

/-- One client, over a new channel before the old one is closed. -/
def reconnected : List Action :=
  [.registerConsumer 0 ['g'] 1 [], .registerConsumer 0 ['g'] 2 []]

theorem queues_divided_reconnected :
    ¬ ∀ infos as m, run step { infos } as = some m → Settled m := by
  intro h
  have hdivided := h (fun i => ⟨i, ['c'], 0⟩) reconnected _ rfl ['g'] _ rfl
  have hids := ((divided_iff (List.cons_ne_nil _ _)).mp hdivided).1
  exact absurd hids (by decide)

end CloudMQ.Allocation
