import CloudMQ.BrokerRegistration
import CloudMQ.Runs

/-!
The permissions of a broker's topics.

The copy of the table that a restricted broker makes for a registration refers to the objects of
the table itself, so setting the permissions of the copy sets those of the broker's own topics.
-/

namespace CloudMQ.TopicPerms

open CloudMQ.Utf8 CloudMQ.Tables CloudMQ.Topics CloudMQ.TopicManager CloudMQ.BrokerRegistration
open CloudMQ.Runs

/-- The permission of a topic. -/
def permOf (m : TopicConfigManager) (topic : Text) : Option Int32 :=
  (m.selectTopicConfig topic).map TopicConfig.perm

/-- A broker, the permissions last set by an operation of its topic manager, and what they were
when the file was last written. -/
structure Watched where
  broker : Broker
  perms : Text → Option Int32
  written : Text → Option Int32

variable (id : Identity) (builtIn : TopicConfigTable)

def permsAfter (s : Watched) : Action → Text → Option Int32
  | .change c => match change s.broker.topics c with
    | none => s.perms
    | some m => fun topic => if sets c = some topic then permOf m topic else s.perms topic
  | .restart _ now => permOf (load builtIn s.broker.file now)
  | _ => s.perms

def writtenAfter (s : Watched) : Action → Text → Option Int32
  | .persistEnd _ => s.perms
  | _ => s.written

def step (s : Watched) (a : Action) : Option Watched :=
  (BrokerRegistration.step id builtIn s.broker a).map fun b =>
    ⟨b, permsAfter builtIn s a, writtenAfter s a⟩

/-- A broker that has just loaded its topics. -/
def loadedBroker (file : Option (DataVersion × TopicConfigTable)) (p : Int32) (now : Int64) :
    Watched :=
  ⟨boot builtIn file p now, permOf (load builtIn file now),
    fun topic => file.bind fun f => (f.2.lookup topic).map TopicConfig.perm⟩

/-- **The permissions are kept**, in the table and in the file. -/
def Kept (s : Watched) : Prop :=
  (∀ topic, permOf s.broker.topics topic = s.perms topic) ∧
    ∀ f ∈ s.broker.file, ∀ topic, (f.2.lookup topic).map TopicConfig.perm = s.written topic

/-- **Nothing to set**: the broker is readable and writeable, or every topic has the permission
of the broker already. -/
def Unmarked (s : Watched) : Action → Prop
  | .registerBrokerAll => s.broker.registering = none → ∀ p ∈ inForce s.broker.brokerPermission,
    ∀ topic c, s.broker.topics.selectTopicConfig topic = some c → c.perm = p
  | _ => True

variable {id builtIn} {s : Watched}

/-- An operation sets the permission of its own topic only. -/
lemma permOf_change {m m' : TopicConfigManager} {c : Change}
    (ha : Allocated m m.topicConfigTable) (h : change m c = some m') {topic : Text}
    (ht : sets c ≠ some topic) : permOf m' topic = permOf m topic := by
  rcases change_cases h with ⟨t, c', hset, rfl⟩ | ⟨t, r, f, hr, rfl, hf⟩ | ⟨topics, rfl⟩ |
    ⟨t, hset, rfl⟩
  · have hne : topic ≠ t := fun heq => ht (heq ▸ hset)
    rw [permOf, select_put ha, if_neg hne, permOf]
  · have htable : (m.revise t r f).topicConfigTable.lookup topic =
        m.topicConfigTable.lookup topic := by
      simp only [TopicConfigManager.revise, lookup_insert_ite]
      split_ifs with heq
      · rw [heq, hr]
      · rfl
    unfold permOf TopicConfigManager.selectTopicConfig
    rw [htable]
    cases hlook : m.topicConfigTable.lookup topic with
    | none => rfl
    | some r' => simp only [Option.map_some, (changed_revise hr hf).perm r' (ha topic r' hlook)]
  · unfold permOf TopicConfigManager.selectTopicConfig
    cases m.topicConfigTable.lookup topic with
    | none => rfl
    | some r => simp only [Option.map_some, perm_setOrder]
  · have hne : topic ≠ t := fun heq => ht (heq ▸ hset)
    simp only [permOf, TopicConfigManager.selectTopicConfig, lookup_erase_ite, if_neg hne]

/-- What a restricted registration does to a permission. -/
lemma permOf_setPerms (m : TopicConfigManager) (p : Int32) (topic : Text) :
    permOf { m with heap := setPerms p m.topicConfigTable m.heap } topic =
      (permOf m topic).map fun _ => p := by
  unfold permOf TopicConfigManager.selectTopicConfig
  cases hr : m.topicConfigTable.lookup topic with
  | none => rfl
  | some r =>
    have hmem : r ∈ m.topicConfigTable.entries.map (·.2) :=
      List.mem_map.mpr ⟨⟨topic, r⟩, mem_entries_iff.mpr hr, rfl⟩
    simp only [Option.map_some, setPerms, if_pos hmem]

/-- The permissions after a registration has begun. -/
lemma permOf_beginRegistering (b : Broker) (topic : Text) :
    permOf (beginRegistering b).topics topic =
      (permOf b.topics topic).map fun q => (inForce b.brokerPermission).getD q := by
  unfold beginRegistering
  cases inForce b.brokerPermission with
  | none => simp
  | some p => exact permOf_setPerms ..

structure Inv (s : Watched) : Prop where
  kept : Kept s
  allocated : Allocated s.broker.topics s.broker.topics.topicConfigTable

lemma step_inv (s : Watched) (a : Action) (s' : Watched) (h : Inv s) (hok : Unmarked s a)
    (hs : step id builtIn s a = some s') : Inv s' := by
  obtain ⟨b, hb, rfl⟩ := Option.map_eq_some_iff.mp hs
  cases a with
  | change c =>
    simp only [BrokerRegistration.step] at hb
    split at hb
    · next hc =>
      obtain rfl := Option.some.inj hb
      refine ⟨⟨fun topic => ?_, h.kept.2⟩, h.allocated⟩
      simpa only [permsAfter, hc] using h.kept.1 topic
    · next m hc =>
      obtain rfl := Option.some.inj hb
      refine ⟨⟨fun topic => ?_, h.kept.2⟩, (changed_of_change hc).allocated h.allocated⟩
      simp only [permsAfter, hc]
      split_ifs with ht
      · rfl
      · rw [permOf_change h.allocated hc ht]
        exact h.kept.1 topic
  | nextVersion i now =>
    simp only [BrokerRegistration.step] at hb
    split_ifs at hb
    obtain rfl := Option.some.inj hb
    exact ⟨h.kept, h.allocated⟩
  | persistBegin i =>
    simp only [BrokerRegistration.step] at hb
    split_ifs at hb
    obtain rfl := Option.some.inj hb
    exact ⟨h.kept, h.allocated⟩
  | persistEnd i =>
    simp only [BrokerRegistration.step] at hb
    split at hb
    · obtain rfl := Option.some.inj hb
      refine ⟨⟨h.kept.1, fun f hf topic => ?_⟩, h.allocated⟩
      obtain rfl := Option.some.inj hf
      rw [lookup_configs]
      exact h.kept.1 topic
    · simp at hb
  | updateBrokerConfig p =>
    obtain rfl := Option.some.inj hb
    exact ⟨h.kept, h.allocated⟩
  | registerBrokerAll =>
    simp only [BrokerRegistration.step] at hb
    split_ifs at hb with hnone
    obtain rfl := Option.some.inj hb
    have hforce := hok (Option.isNone_iff_eq_none.mp hnone)
    refine ⟨⟨fun topic => ?_, ?_⟩, ?_⟩
    · rw [permOf_beginRegistering]
      refine Eq.trans ?_ (h.kept.1 topic)
      rw [permOf]
      cases hc : s.broker.topics.selectTopicConfig topic with
      | none => rfl
      | some c =>
        cases hf : inForce s.broker.brokerPermission with
        | none => rfl
        | some p => simp [hforce p hf topic c hc]
    · unfold beginRegistering
      split <;> exact h.kept.2
    · unfold beginRegistering
      split <;> exact h.allocated
  | encodeVersion =>
    simp only [BrokerRegistration.step] at hb
    split at hb
    · obtain rfl := Option.some.inj hb
      exact ⟨h.kept, h.allocated⟩
    · simp at hb
  | encodeTable =>
    simp only [BrokerRegistration.step] at hb
    split at hb
    · obtain rfl := Option.some.inj hb
      exact ⟨h.kept, h.allocated⟩
    · simp at hb
  | deliver i fs ch now =>
    obtain ⟨f, -, rfl⟩ := Option.map_eq_some_iff.mp hb
    exact ⟨h.kept, h.allocated⟩
  | restart p now =>
    obtain rfl := Option.some.inj hb
    exact ⟨⟨fun _ => rfl, h.kept.2⟩, allocated_load builtIn s.broker.file now⟩

/-- A registration that keeps the permissions had nothing to set. -/
lemma unmarked_of_kept (s : Watched) (a : Action) (h : Inv s)
    (hkept : ∀ s', step id builtIn s a = some s' → Kept s') : Unmarked s a := by
  cases a with
  | registerBrokerAll =>
    intro hnone p hp topic c hc
    have hs : step id builtIn s .registerBrokerAll =
        some ⟨beginRegistering s.broker, s.perms, s.written⟩ := by
      simp [step, BrokerRegistration.step, hnone, permsAfter, writtenAfter]
    have hperm := (hkept _ hs).1 topic
    rw [permOf_beginRegistering, ← h.kept.1 topic, permOf, hc, Option.mem_def.mp hp] at hperm
    exact (Option.some.inj hperm).symm
  | change c => trivial
  | nextVersion i now => trivial
  | persistBegin i => trivial
  | persistEnd i => trivial
  | updateBrokerConfig p => trivial
  | encodeVersion => trivial
  | encodeTable => trivial
  | deliver i fs ch now => trivial
  | restart p now => trivial

lemma inv_loadedBroker (file : Option (DataVersion × TopicConfigTable)) (p : Int32) (now : Int64) :
    Inv (loadedBroker builtIn file p now) := by
  refine ⟨⟨fun _ => rfl, fun f hf topic => ?_⟩, allocated_load builtIn file now⟩
  have hfile : file = some f := hf
  simp [loadedBroker, hfile]

/-- **Registering and the broker's own topics.** The permissions stay as they were set, in every
state of a run, if and only if no registration had a permission to set. -/
theorem perms_kept_iff (id : Identity) (builtIn : TopicConfigTable)
    (file : Option (DataVersion × TopicConfigTable)) (p : Int32) (now : Int64)
    (actions : List Action) :
    (∀ as, as <+: actions → ∀ s, run (step id builtIn) (loadedBroker builtIn file p now) as =
      some s → Kept s) ↔
      Meets (step id builtIn) Unmarked (loadedBroker builtIn file p now) actions :=
  holds_along_iff step_inv (fun _ h => h.kept) unmarked_of_kept (inv_loadedBroker file p now)

/-! ### Restricted and restored -/

def testId : Identity := ⟨"c".toList, "1.1.1.1:10911".toList, "b".toList, none⟩

def testTopics : TopicConfigTable := AList.singleton "T".toList {}

/-- The broker may only be read for the time of one registration. -/
def restrictAndRestore : List Action :=
  [.updateBrokerConfig PERM_READ, .registerBrokerAll, .encodeVersion, .encodeTable,
    .deliver 0 none 1 1, .updateBrokerConfig (PERM_READ ||| PERM_WRITE)]

/-- The topic may only be read afterwards. -/
theorem perms_kept_restored :
    ∃ s, run (step testId testTopics)
        (loadedBroker testTopics none (PERM_READ ||| PERM_WRITE) 0) restrictAndRestore = some s ∧
      s.broker.brokerPermission = PERM_READ ||| PERM_WRITE ∧
      permOf s.broker.topics "T".toList = some PERM_READ ∧ ¬ Kept s := by
  have hrun : (run (step testId testTopics)
      (loadedBroker testTopics none (PERM_READ ||| PERM_WRITE) 0) restrictAndRestore).map (fun s =>
        (s.broker.brokerPermission, permOf s.broker.topics "T".toList, s.perms "T".toList)) =
      some (6, some 4, some 6) := by
    decide
  obtain ⟨s, hs, heq⟩ := Option.map_eq_some_iff.mp hrun
  simp only [Prod.mk.injEq] at heq
  obtain ⟨hp, hperm, hset⟩ := heq
  refine ⟨s, hs, hp.trans (by decide), hperm.trans (by decide), fun hkept => ?_⟩
  have := (hperm.symm.trans (hkept.1 "T".toList)).trans hset
  exact absurd this (by decide)

end CloudMQ.TopicPerms
