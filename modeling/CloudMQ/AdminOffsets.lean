import CloudMQ.Consumers
import CloudMQ.OffsetTable
import CloudMQ.Properties
import CloudMQ.TopicManager

/-!
The administrator's requests about the offsets of consumer groups: giving a group the offsets of
another one, and asking how far a topic has been consumed by all.
-/

namespace CloudMQ.AdminOffsets

open CloudMQ.Utf8 CloudMQ.Strings CloudMQ.Tables CloudMQ.ConsumerOffsets CloudMQ.OffsetTable
open CloudMQ.Consumers CloudMQ.TopicManager CloudMQ.Properties

/-! ### Cloning -/

structure CloneGroupOffsetRequestHeader where
  srcGroup : Name
  destGroup : Name
  topic : Option Name
  offline : Bool

def findSubscriptionData (m : ConsumerManager) (group topic : Text) : Option SubscriptionData :=
  (m.consumerTable.lookup group).bind (·.subscriptionTable.lookup topic)

def findSubscriptionDataCount (m : ConsumerManager) (group : Text) : ℕ :=
  ((m.consumerTable.lookup group).map (·.subscriptionTable.entries.length)).getD 0

/-- The topic of a key, where the group is the one asked for. -/
def topicOf (group key : Text) : Option Text :=
  match split TOPIC_GROUP_SEPARATOR key with
  | [topic, g] => if group = g then some topic else none
  | _ => none

def whichTopicByConsumer (walk : List Text) (m : ConsumerOffsetManager) (group : Text) :
    List Text :=
  ((order walk m.offsetTable).filterMap (topicOf group)).dedup

/-- A topic that the loop does not pass over. -/
def isSelected (topicConfigs : TopicConfigManager) (consumers : ConsumerManager)
    (requestHeader : CloneGroupOffsetRequestHeader) (topic : Text) : Bool :=
  (topicConfigs.selectTopicConfig topic).isSome &&
    (requestHeader.offline ||
      !(decide (0 < findSubscriptionDataCount consumers requestHeader.srcGroup.text) &&
        (findSubscriptionData consumers requestHeader.srcGroup.text topic).isNone))

/-- `UtilAll.isBlank`. -/
def noTopic (topic : Option Name) : Bool := topic.all fun t => isBlank t.text

lemma noSeparator_null : TOPIC_GROUP_SEPARATOR ∉ ['n', 'u', 'l', 'l'] := by decide

/-- What a reference is in a concatenation of strings. -/
def inKey (topic : Option Name) : Name := topic.getD ⟨['n', 'u', 'l', 'l'], noSeparator_null⟩

def cloneGroupOffset (walk : List Text) (topicConfigs : TopicConfigManager)
    (consumers : ConsumerManager) (requestHeader : CloneGroupOffsetRequestHeader)
    (m : ConsumerOffsetManager) : ConsumerOffsetManager :=
  let topics := if noTopic requestHeader.topic then
      whichTopicByConsumer walk m requestHeader.srcGroup.text
    else [(inKey requestHeader.topic).text]
  topics.foldl (fun m topic =>
    if isSelected topicConfigs consumers requestHeader topic then
      -- the topic of the request, not that of the loop
      m.cloneOffset requestHeader.srcGroup.text requestHeader.destGroup.text
        (inKey requestHeader.topic).text
    else m) m

/-! ### What a clone should do -/

section

variable (topicConfigs : TopicConfigManager) (consumers : ConsumerManager)
  (req : CloneGroupOffsetRequestHeader) (m m' : ConsumerOffsetManager)

/-- The topic asked for, or any that the source has offsets of; the broker knows it, and the source
subscribes to it unless it is offline or subscribes to nothing. -/
def Selected (topic : Name) : Prop :=
  (if noTopic req.topic then topic.key req.srcGroup ∈ m.offsetTable else topic = inKey req.topic) ∧
    isSelected topicConfigs consumers req topic.text

/-- The destination has the source's offsets of the selected topics, and nothing else changed. -/
structure Cloned : Prop where
  copied : ∀ topic, Selected topicConfigs consumers req m topic → ∀ queueId,
    m'.find (topic.key req.destGroup) queueId = m.find (topic.key req.srcGroup) queueId
  kept : ∀ topic group, ¬(Selected topicConfigs consumers req m topic ∧ group = req.destGroup) →
    ∀ queueId, m'.find (topic.key group) queueId = m.find (topic.key group) queueId

/-- The destination has the source's offsets already. -/
def SameOffsets (topic : Name) : Prop := ∀ queueId,
  m.find (topic.key req.destGroup) queueId = m.find (topic.key req.srcGroup) queueId

/-- The groups whose keys can be taken apart, where topics are to be found from keys. -/
def Listed : Prop := noTopic req.topic → req.srcGroup.text ≠ []

/-- Every selected topic is that of the request itself, or needs no change; and where some topic is
selected, that of the request is selected too, or its clone changes nothing. -/
structure Clonable : Prop where
  own : ∀ topic, Selected topicConfigs consumers req m topic →
    (topic = inKey req.topic ∧ topic.key req.srcGroup ∈ m.offsetTable ∧ Listed req) ∨
      SameOffsets req m topic
  other : Listed req → (∃ topic, Selected topicConfigs consumers req m topic) →
    Selected topicConfigs consumers req m (inKey req.topic) ∨
      (inKey req.topic).key req.srcGroup ∉ m.offsetTable ∨ SameOffsets req m (inKey req.topic)

end

/-! ### What a clone does -/

section

variable {walk : List Text} {topicConfigs : TopicConfigManager} {consumers : ConsumerManager}
  {req : CloneGroupOffsetRequestHeader} {m : ConsumerOffsetManager}

/-- Every key is of a topic and a group. -/
def Keyed (m : ConsumerOffsetManager) : Prop :=
  ∀ key ∈ m.offsetTable, ∃ topic group : Name, key = topic.key group

/-- The pieces of a key: an empty group is lost, and with it an empty topic. -/
lemma split_key (topic group : Name) : split TOPIC_GROUP_SEPARATOR (topic.key group) =
    if group.text ≠ [] then [topic.text, group.text]
    else if topic.text ≠ [] then [topic.text] else [] := by
  rw [Name.key, topicAtGroup]
  by_cases hgroup : group.text = []
  · rw [if_neg (not_not.mpr hgroup), hgroup, split, if_pos (by simp),
      List.splitOn_append_cons_self_of_not_mem topic.noSeparator, List.splitOn_nil]
    change List.rdropWhile List.isEmpty ([topic.text] ++ [[]]) = _
    rw [List.rdropWhile_concat_pos _ _ _ rfl]
    by_cases htopic : topic.text = []
    · rw [if_neg (not_not.mpr htopic), htopic]
      rfl
    · rw [if_pos htopic, List.rdropWhile_eq_self_iff]
      intro _
      simpa using htopic
  · rw [if_pos hgroup, split_pair topic.noSeparator group.noSeparator hgroup]

lemma topicOf_eq_some_iff {topic group group' : Name} {t : Text} :
    topicOf group.text (topic.key group') = some t ↔
      group' = group ∧ group.text ≠ [] ∧ t = topic.text := by
  have hname : group' = group ↔ group.text = group'.text := by
    constructor
    · exact fun h => h ▸ rfl
    · intro h
      obtain ⟨g, hg⟩ := group
      obtain ⟨g', hg'⟩ := group'
      cases h
      rfl
  rw [topicOf, split_key, hname]
  by_cases hgroup : group'.text = []
  · rw [if_neg (not_not.mpr hgroup)]
    split_ifs
    · refine iff_of_false (fun h => by cases h) fun h => h.2.1 (h.1.trans hgroup)
    · refine iff_of_false (fun h => by cases h) fun h => h.2.1 (h.1.trans hgroup)
  · rw [if_pos hgroup]
    dsimp only
    split_ifs with heq
    · constructor
      · intro h
        cases h
        exact ⟨heq, heq ▸ hgroup, rfl⟩
      · rintro ⟨-, -, rfl⟩
        rfl
    · exact iff_of_false (fun h => by cases h) fun h => heq h.1

/-- The topics that the loop goes through. -/
lemma mem_whichTopicByConsumer (hkeys : Keyed m) {group : Name} {t : Text} :
    t ∈ whichTopicByConsumer walk m group.text ↔
      group.text ≠ [] ∧ ∃ topic : Name, topic.text = t ∧ topic.key group ∈ m.offsetTable := by
  rw [whichTopicByConsumer, List.mem_dedup, List.mem_filterMap]
  constructor
  · rintro ⟨key, hkey, htopic⟩
    rw [mem_order] at hkey
    obtain ⟨topic, group', rfl⟩ := hkeys key hkey
    obtain ⟨rfl, hne, rfl⟩ := topicOf_eq_some_iff.mp htopic
    exact ⟨hne, topic, rfl, hkey⟩
  · rintro ⟨hne, topic, rfl, hkey⟩
    exact ⟨_, mem_order.mpr hkey, topicOf_eq_some_iff.mpr ⟨rfl, hne, rfl⟩⟩

lemma mem_cloneOffset (srcGroup destGroup topic : Name) :
    topic.key srcGroup ∈ (m.cloneOffset srcGroup.text destGroup.text topic.text).offsetTable ↔
      topic.key srcGroup ∈ m.offsetTable := by
  rw [ConsumerOffsetManager.cloneOffset]
  split
  · rename_i offsets hmap
    rw [AList.mem_insert]
    exact or_iff_right_of_imp fun _ => mem_iff_lookup.mpr ⟨offsets, hmap⟩
  · rfl

/-- The same clone, once for each selected topic of a list. -/
lemma find_clones (srcGroup destGroup topic : Name) (selected : Text → Bool) (topics : List Text)
    (key : Text) (queueId : Int32) :
    (topics.foldl (fun m t => if selected t then
      m.cloneOffset srcGroup.text destGroup.text topic.text else m) m).find key queueId =
      if topics.any selected ∧ topic.key srcGroup ∈ m.offsetTable ∧ key = topic.key destGroup then
        m.find (topic.key srcGroup) queueId
      else m.find key queueId := by
  induction topics generalizing m with
  | nil => rw [List.foldl_nil, if_neg (by simp)]
  | cons t topics ih =>
    rw [List.foldl_cons, ih, List.any_cons]
    by_cases hsel : selected t = true
    · have hsource : (m.cloneOffset srcGroup.text destGroup.text topic.text).find
          (topic.key srcGroup) queueId = m.find (topic.key srcGroup) queueId := by
        rw [find_cloneOffset]
        split_ifs <;> rfl
      rw [if_pos hsel, hsource, find_cloneOffset, hsel, Bool.true_or]
      simp only [mem_cloneOffset, true_and]
      by_cases hkey : topic.key srcGroup ∈ m.offsetTable ∧ key = topic.key destGroup
      · rw [if_pos hkey, ite_self]
      · rw [if_neg fun h => hkey h.2, if_neg hkey]
    · rw [if_neg hsel, Bool.eq_false_iff.mpr hsel, Bool.false_or]

/-- The loop comes to a clone exactly when it can find a selected topic. -/
lemma any_isSelected (hkeys : Keyed m) :
    (if noTopic req.topic then whichTopicByConsumer walk m req.srcGroup.text
      else [(inKey req.topic).text]).any (isSelected topicConfigs consumers req) ↔
      Listed req ∧ ∃ topic, Selected topicConfigs consumers req m topic := by
  simp only [Listed, Selected]
  by_cases hblank : noTopic req.topic = true
  · simp only [hblank, if_true, forall_const, List.any_eq_true]
    constructor
    · rintro ⟨t, ht, hsel⟩
      obtain ⟨hne, topic, rfl, hkey⟩ := (mem_whichTopicByConsumer hkeys).mp ht
      exact ⟨hne, topic, hkey, hsel⟩
    · rintro ⟨hne, topic, hkey, hsel⟩
      exact ⟨_, (mem_whichTopicByConsumer hkeys).mpr ⟨hne, topic, rfl, hkey⟩, hsel⟩
  · rw [if_neg hblank, List.any_cons, List.any_nil, Bool.or_false]
    simp only [if_neg hblank, exists_eq_left]
    exact (and_iff_right fun h => absurd h hblank).symm

/-- The offsets that the loop writes. -/
structure Written (topicConfigs : TopicConfigManager) (consumers : ConsumerManager)
    (req : CloneGroupOffsetRequestHeader) (m : ConsumerOffsetManager) (topic group : Name) :
    Prop where
  listed : Listed req
  selects : ∃ topic, Selected topicConfigs consumers req m topic
  source : topic.key req.srcGroup ∈ m.offsetTable
  topic_eq : topic = inKey req.topic
  group_eq : group = req.destGroup

lemma find_written (hkeys : Keyed m) {topic group : Name}
    (h : Written topicConfigs consumers req m topic group) (queueId : Int32) :
    (cloneGroupOffset walk topicConfigs consumers req m).find (topic.key group) queueId =
      m.find (topic.key req.srcGroup) queueId := by
  obtain ⟨hlisted, hex, hmem, rfl, rfl⟩ := h
  rw [cloneGroupOffset, find_clones, if_pos ⟨(any_isSelected hkeys).mpr ⟨hlisted, hex⟩, hmem, rfl⟩]

lemma find_not_written (hkeys : Keyed m) {topic group : Name}
    (h : ¬Written topicConfigs consumers req m topic group) (queueId : Int32) :
    (cloneGroupOffset walk topicConfigs consumers req m).find (topic.key group) queueId =
      m.find (topic.key group) queueId := by
  rw [cloneGroupOffset, find_clones, if_neg]
  rintro ⟨hany, hmem, hkey⟩
  obtain ⟨hlisted, hex⟩ := (any_isSelected hkeys).mp hany
  obtain ⟨rfl, rfl⟩ := key_inj.mp hkey
  exact h ⟨hlisted, hex, hmem, rfl, rfl⟩

/-- **Cloning a group's offsets.** -/
theorem cloned_iff (hkeys : Keyed m) :
    Cloned topicConfigs consumers req m (cloneGroupOffset walk topicConfigs consumers req m) ↔
      Clonable topicConfigs consumers req m := by
  constructor
  · intro h
    refine ⟨fun topic hsel => ?_, fun hlisted hex => ?_⟩
    · by_cases hwritten : Written topicConfigs consumers req m topic req.destGroup
      · exact .inl ⟨hwritten.topic_eq, hwritten.source, hwritten.listed⟩
      · refine .inr fun queueId => ?_
        rw [← h.copied topic hsel, find_not_written hkeys hwritten]
    · by_cases hsel : Selected topicConfigs consumers req m (inKey req.topic)
      · exact .inl hsel
      by_cases hmem : (inKey req.topic).key req.srcGroup ∈ m.offsetTable
      · refine .inr (.inr fun queueId => ?_)
        have hkept := h.kept (inKey req.topic) req.destGroup (fun hboth => hsel hboth.1) queueId
        rw [← hkept, find_written hkeys ⟨hlisted, hex, hmem, rfl, rfl⟩]
      · exact .inr (.inl hmem)
  · intro h
    refine ⟨fun topic hsel queueId => ?_, fun topic group hnot queueId => ?_⟩
    · by_cases hwritten : Written topicConfigs consumers req m topic req.destGroup
      · exact find_written hkeys hwritten queueId
      · rw [find_not_written hkeys hwritten]
        rcases h.own topic hsel with ⟨heq, hmem, hlisted⟩ | hsame
        · exact absurd ⟨hlisted, ⟨_, hsel⟩, hmem, heq, rfl⟩ hwritten
        · exact hsame queueId
    · by_cases hwritten : Written topicConfigs consumers req m topic group
      · rw [find_written hkeys hwritten]
        obtain ⟨hlisted, hex, hmem, rfl, rfl⟩ := hwritten
        rcases h.other hlisted hex with hsel | hnone | hsame
        · exact absurd ⟨hsel, rfl⟩ hnot
        · exact absurd hmem hnone
        · exact (hsame queueId).symm
      · exact find_not_written hkeys hwritten queueId

end

/-- Group `a` has an offset of topic `t`. -/
def committed : ConsumerOffsetManager :=
  ({} : ConsumerOffsetManager).commitOffset groupA.text topicT.text 0 5

/-- The broker knows topic `t`. -/
def knowing : TopicConfigManager :=
  ⟨fun _ => {}, 1, (∅ : Table Text ℕ).insert topicT.text 0, ⟨0, 0⟩⟩

/-- No group is connected. -/
def nobody : ConsumerManager := { infos := fun _ => ⟨0, [], 0⟩ }

lemma keyed_committed : Keyed committed := by
  intro key hkey
  have heq : key = topicT.key groupA := (AList.mem_insert _).mp hkey |>.resolve_right (by simp)
  exact ⟨topicT, groupA, heq⟩

theorem cloned_one : Cloned knowing nobody ⟨groupA, groupB, some topicT, false⟩ committed
    (cloneGroupOffset [] knowing nobody ⟨groupA, groupB, some topicT, false⟩ committed) ↔
      Clonable knowing nobody ⟨groupA, groupB, some topicT, false⟩ committed :=
  cloned_iff keyed_committed

/-- All topics of a group. -/
theorem cloned_none : ¬ ∀ walk topicConfigs consumers req m, Keyed m →
    Cloned topicConfigs consumers req m
      (cloneGroupOffset walk topicConfigs consumers req m) := by
  intro h
  have hcloned := h [] knowing nobody ⟨groupA, groupB, none, false⟩ committed keyed_committed
  have hcopied := hcloned.copied topicT ⟨by decide, by decide⟩ 0
  exact absurd hcopied (by decide)

end CloudMQ.AdminOffsets
