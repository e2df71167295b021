import CloudMQ.BrokerRegistration
import CloudMQ.Runs

/-!
The name server follows the broker's topics.

A version that has not changed stands for a table that has not changed, except for the
permissions: those are set without a new version. What has been read under a version, on its way
to the name server or there already, agrees with the table as long as the version is the current
one and no change waits for its version, provided all registrations under one version are made
with the same permission.
-/

namespace CloudMQ.Following

open CloudMQ.Utf8 CloudMQ.Tables CloudMQ.Topics CloudMQ.TopicManager CloudMQ.RouteInfo
open CloudMQ.BrokerRegistration CloudMQ.Runs
open CloudMQ.RouteTopics (queuesOf Tidy)

variable {id : Identity} {builtIn : TopicConfigTable} {s s' : Broker}

/-- **The name server follows**: exactly one entry of the broker for every topic of its table,
with the permission in force. -/
def Follows (id : Identity) (s : Broker) : Prop :=
  ∀ topic c, s.topics.selectTopicConfig topic = some c →
    queuesOf id.brokerName topic s.routes =
      [queueData id.brokerName (permit (inForce s.brokerPermission) c)]

/-- **One permission for a version**: registrations under one version are made with one
permission in force, a restricted broker's copy of the table is not outdated when the version is
written, and a restart finds nothing under way and no built-in topic deleted. -/
def Steady (builtIn : TopicConfigTable) (s : Broker) : Action → Prop
  | .registerBrokerAll => ∀ m ∈ s.made, m.1 = s.topics.dataVersion →
    m.2 = inForce s.brokerPermission
  | .encodeVersion => ∀ r ∈ s.registering, ∀ copy ∈ r.restricted,
    (∀ topic, copy.2.lookup topic = s.topics.topicConfigTable.lookup topic) ∨
      Stage.changed ∈ s.ops
  | .restart _ _ => s.ops = [] ∧ s.registering = none ∧ s.flights = [] ∧
    ∀ topic ∈ builtIn, topic ∈ s.topics.topicConfigTable
  | _ => True

/-- The clock does not show a time from before a restart again. -/
def Clock (s : Broker) : Action → Prop
  | .nextVersion _ now => now ∉ s.earlier
  | .restart _ now => now ∉ s.earlier ++ s.readings
  | _ => True

/-! ### The invariant -/

/-- What is read of a topic with the permission in force. -/
def view (permission : Option Int32) (m : TopicConfigManager) (topic : Text) :
    Option TopicConfig :=
  (m.selectTopicConfig topic).map (permit permission)

/-- A version that the clock will not bring again. -/
def Known (s : Broker) (v : DataVersion) : Prop :=
  v.timestatmp ∈ s.earlier ++ s.readings ∧
    (v.timestatmp ∈ s.earlier ∨ v.counter ≤ s.topics.dataVersion.counter)

/-- The table has not changed since the version was read. -/
def Current (s : Broker) (v : DataVersion) : Prop :=
  v = s.topics.dataVersion ∧ Stage.changed ∉ s.ops

structure RegisteringOK (s : Broker) (r : Registering) : Prop where
  perms : ∀ copy ∈ r.restricted, Allocated s.topics copy.2 ∧
    ∀ topic ref, copy.2.lookup topic = some ref → (s.topics.heap ref).perm = copy.1
  started : r.dataVersion = none → ∀ m ∈ s.made, m.1 = s.topics.dataVersion → m.2 = r.permission
  versioned : ∀ v ∈ r.dataVersion, (v, r.permission) ∈ s.made ∧ (Current s v →
    ∀ copy ∈ r.restricted, ∀ topic,
      copy.2.lookup topic = s.topics.topicConfigTable.lookup topic)
  quiet : r.quiet → s.ops = [] ∧ r.permission = inForce s.brokerPermission ∧
    ∀ v ∈ r.dataVersion, v = s.topics.dataVersion

structure FlightOK (s : Broker) (f : Flight) : Prop where
  made : (f.dataVersion, f.permission) ∈ s.made
  table : Current s f.dataVersion → ∀ topic c, view f.permission s.topics topic = some c →
    f.topicConfigTable.lookup topic = some c
  quiet : f.quiet → s.ops = [] ∧ f.permission = inForce s.brokerPermission ∧
    f.dataVersion = s.topics.dataVersion

/-- The file can be compared with the table under this permission. -/
def Comparable (s : Broker) (permission : Option Int32) : Prop :=
  permission = none → (∀ p, (s.topics.dataVersion, some p) ∉ s.made) ∧
    ∀ r ∈ s.registering, r.dataVersion = none → r.restricted = none

structure Inv (id : Identity) (builtIn : TopicConfigTable) (s : Broker) : Prop where
  tidy : Tidy s.routes
  allocated : Allocated s.topics s.topics.topicConfigTable
  known : ∀ m ∈ s.made, Known s m.1
  version : Known s s.topics.dataVersion
  persisting : ∀ v, Stage.persisting v ∈ s.ops → v = s.topics.dataVersion ∨ Stage.bumped ∈ s.ops
  file : s.ops = [] → ∀ f ∈ s.file, f.1 = s.topics.dataVersion ∧
    ((∀ topic ∈ builtIn, topic ∈ s.topics.topicConfigTable) → ∀ e, Comparable s e → ∀ topic,
      ((loaded builtIn (some f)).lookup topic).map (permit e) = view e s.topics topic)
  agree : ∀ m ∈ s.made, ∀ m' ∈ s.made, m.1 = s.topics.dataVersion →
    m'.1 = s.topics.dataVersion → m.2 = m'.2
  registering : ∀ r ∈ s.registering, RegisteringOK s r
  flights : ∀ f ∈ s.flights, FlightOK s f
  routes : ∀ info ∈ s.routes.brokerLiveTable.lookup id.brokerAddr,
    ∃ e, (info.dataVersion, e) ∈ s.made ∧ (Current s info.dataVersion →
      ∀ topic c, view e s.topics topic = some c →
        queuesOf id.brokerName topic s.routes = [queueData id.brokerName c])

/-! ### Steps that leave the version or the table alone -/

/-- A change of the table, before its version. -/
lemma Inv.change (h : Inv id builtIn s) {topics : TopicConfigManager}
    (hc : Changed s.topics topics) :
    Inv id builtIn { disturb s with topics := topics, ops := s.ops ++ [.changed] } where
  tidy := h.tidy
  allocated := hc.allocated h.allocated
  known m hm := by
    obtain ⟨h1, h2⟩ := h.known m hm
    exact ⟨h1, hc.version.symm ▸ h2⟩
  version := by
    obtain ⟨h1, h2⟩ := h.version
    exact ⟨hc.version.symm ▸ h1, hc.version.symm ▸ h2⟩
  persisting v hv := by
    simp only [List.mem_append, List.mem_singleton, reduceCtorEq, or_false] at hv ⊢
    rw [hc.version]
    exact h.persisting v hv
  file hops := by simp at hops
  agree := hc.version.symm ▸ h.agree
  registering r hr := by
    obtain ⟨r₀, hr₀, rfl⟩ := Option.mem_map.mp hr
    have hok := h.registering r₀ hr₀
    refine ⟨fun copy hcopy => ?_, hc.version.symm ▸ hok.started, fun v hv => ?_, by simp⟩
    · obtain ⟨h1, h2⟩ := hok.perms copy hcopy
      refine ⟨fun t ref href => (h1 t ref href).trans_le hc.next, fun t ref href => ?_⟩
      exact (hc.perm ref (h1 t ref href)).trans (h2 t ref href)
    · exact ⟨(hok.versioned v hv).1, fun hcur => absurd (List.mem_append_right _ (by simp)) hcur.2⟩
  flights f hf := by
    obtain ⟨f₀, hf₀, rfl⟩ := List.mem_map.mp hf
    have hok := h.flights f₀ hf₀
    exact ⟨hok.made, fun hcur => absurd (List.mem_append_right _ (by simp)) hcur.2, by simp⟩
  routes info hinfo := by
    obtain ⟨e, he, -⟩ := h.routes info hinfo
    exact ⟨e, he, fun hcur => absurd (List.mem_append_right _ (by simp)) hcur.2⟩

lemma Inv.updateBrokerConfig (h : Inv id builtIn s) (p : Int32) :
    Inv id builtIn { disturb s with brokerPermission := p } where
  tidy := h.tidy
  allocated := h.allocated
  known := h.known
  version := h.version
  persisting := h.persisting
  file hops f hf := by
    refine ⟨(h.file hops f hf).1, fun hb e he => (h.file hops f hf).2 hb e fun hnone => ?_⟩
    refine ⟨(he hnone).1, fun r hr hv => ?_⟩
    exact (he hnone).2 { r with quiet := false } (Option.mem_map.mpr ⟨r, hr, rfl⟩) hv
  agree := h.agree
  registering r hr := by
    obtain ⟨r₀, hr₀, rfl⟩ := Option.mem_map.mp hr
    have hok := h.registering r₀ hr₀
    exact ⟨hok.perms, hok.started, hok.versioned, by simp⟩
  flights f hf := by
    obtain ⟨f₀, hf₀, rfl⟩ := List.mem_map.mp hf
    have hok := h.flights f₀ hf₀
    exact ⟨hok.made, hok.table, by simp⟩
  routes := h.routes

/-- A new version has not been registered. -/
lemma Inv.ne_nextVersion (h : Inv id builtIn s) {now : Int64} (hnow : now ∉ s.earlier)
    {m : DataVersion × Option Int32} (hm : m ∈ s.made) :
    m.1 ≠ s.topics.dataVersion.nextVersion now := by
  intro heq
  rcases (h.known m hm).2 with h1 | h1
  · rw [heq] at h1
    exact hnow h1
  · rw [heq] at h1
    simp only [DataVersion.nextVersion] at h1
    omega

lemma Inv.nextVersion (h : Inv id builtIn s) {i : ℕ} {now : Int64} (hnow : now ∉ s.earlier)
    (hi : s.ops[i]? = some .changed) :
    Inv id builtIn { s with
      topics := { s.topics with dataVersion := s.topics.dataVersion.nextVersion now }
      ops := s.ops.set i .bumped
      readings := now :: s.readings } where
  tidy := h.tidy
  allocated := h.allocated
  known m hm := by
    obtain ⟨h1, h2⟩ := h.known m hm
    refine ⟨?_, h2.imp_right fun h3 => h3.trans (by simp [DataVersion.nextVersion])⟩
    simp only [List.mem_append, List.mem_cons] at h1 ⊢
    exact h1.imp_right .inr
  version := ⟨by simp [DataVersion.nextVersion], .inr le_rfl⟩
  persisting v _ := .inr (List.mem_set (List.getElem?_eq_some_iff.mp hi).1 _)
  file hops := by
    have hlen := congrArg List.length hops
    have hlt := (List.getElem?_eq_some_iff.mp hi).1
    simp only [List.length_set, List.length_nil] at hlen
    omega
  agree m hm _ _ heq := absurd heq (h.ne_nextVersion hnow hm)
  registering r hr := by
    have hok := h.registering r hr
    refine ⟨hok.perms, fun _ m hm heq => absurd heq (h.ne_nextVersion hnow hm), fun v hv => ?_,
      fun hq => ?_⟩
    · have hmade := (hok.versioned v hv).1
      exact ⟨hmade, fun hcur => absurd hcur.1 (h.ne_nextVersion hnow hmade)⟩
    · simp [(hok.quiet hq).1] at hi
  flights f hf := by
    have hok := h.flights f hf
    refine ⟨hok.made, fun hcur => absurd hcur.1 (h.ne_nextVersion hnow hok.made), fun hq => ?_⟩
    simp [(hok.quiet hq).1] at hi
  routes info hinfo := by
    obtain ⟨e, he, -⟩ := h.routes info hinfo
    exact ⟨e, he, fun hcur => absurd hcur.1 (h.ne_nextVersion hnow he)⟩

/-! ### Writing the file -/

/-- What is elsewhere in a list stays when one element is replaced or taken out. -/
lemma mem_set_of_ne {α : Type} {l : List α} {i : ℕ} {x y : α} (hi : l[i]? = some x) (hy : y ∈ l)
    (hne : y ≠ x) (z : α) : y ∈ l.set i z := by
  obtain ⟨j, hj⟩ := List.mem_iff_getElem?.mp hy
  refine List.mem_iff_getElem?.mpr ⟨j, ?_⟩
  rw [List.getElem?_set_ne, hj]
  rintro rfl
  exact hne (Option.some.inj (hj.symm.trans hi))

lemma mem_eraseIdx_of_ne {α : Type} {l : List α} {i : ℕ} {x y : α} (hi : l[i]? = some x)
    (hy : y ∈ l) (hne : y ≠ x) : y ∈ l.eraseIdx i := by
  rw [List.mem_eraseIdx_iff_getElem?]
  obtain ⟨j, hj⟩ := List.mem_iff_getElem?.mp hy
  refine ⟨j, ?_, hj⟩
  rintro rfl
  exact hne (Option.some.inj (hj.symm.trans hi))

/-- Operations that have their version go on with the file; nothing else changes. -/
lemma Inv.ops (h : Inv id builtIn s) {ops : List Stage}
    {file : Option (DataVersion × TopicConfigTable)}
    (hchanged : Stage.changed ∈ s.ops → Stage.changed ∈ ops) (hne : s.ops ≠ [])
    (hpersisting : ∀ v, Stage.persisting v ∈ ops → v = s.topics.dataVersion ∨ Stage.bumped ∈ ops)
    (hfile : ops = [] → ∀ f ∈ file, f.1 = s.topics.dataVersion ∧
      ((∀ topic ∈ builtIn, topic ∈ s.topics.topicConfigTable) → ∀ e, ∀ topic,
        ((loaded builtIn (some f)).lookup topic).map (permit e) = view e s.topics topic)) :
    Inv id builtIn { s with ops := ops, file := file } where
  tidy := h.tidy
  allocated := h.allocated
  known := h.known
  version := h.version
  persisting := hpersisting
  file hops f hf := ⟨(hfile hops f hf).1, fun hb e _ => (hfile hops f hf).2 hb e⟩
  agree := h.agree
  registering r hr := by
    have hok := h.registering r hr
    refine ⟨hok.perms, hok.started, fun v hv => ⟨(hok.versioned v hv).1, fun hcur => ?_⟩,
      fun hq => absurd (hok.quiet hq).1 hne⟩
    exact (hok.versioned v hv).2 ⟨hcur.1, fun hc => hcur.2 (hchanged hc)⟩
  flights f hf := by
    have hok := h.flights f hf
    exact ⟨hok.made, fun hcur => hok.table ⟨hcur.1, fun hc => hcur.2 (hchanged hc)⟩,
      fun hq => absurd (hok.quiet hq).1 hne⟩
  routes info hinfo := by
    obtain ⟨e, he, hroutes⟩ := h.routes info hinfo
    exact ⟨e, he, fun hcur => hroutes ⟨hcur.1, fun hc => hcur.2 (hchanged hc)⟩⟩

lemma Inv.persistBegin (h : Inv id builtIn s) {i : ℕ} (hi : s.ops[i]? = some .bumped)
    (hnone : ¬ s.ops.any Stage.isPersisting) :
    Inv id builtIn { s with ops := s.ops.set i (.persisting s.topics.dataVersion) } := by
  have hlt := (List.getElem?_eq_some_iff.mp hi).1
  refine h.ops (fun hc => mem_set_of_ne hi hc (by simp) _) (List.ne_nil_of_length_pos (by omega))
    (fun v hv => ?_) (fun hops => ?_)
  · rcases List.mem_or_eq_of_mem_set hv with hold | heq
    · exact absurd (List.any_eq_true.mpr ⟨_, hold, rfl⟩) hnone
    · exact .inl (Stage.persisting.inj heq)
  · have := congrArg List.length hops
    simp only [List.length_set, List.length_nil] at this
    omega

/-- The table that has been written is the one that is loaded again. -/
lemma lookup_loaded_configs {m : TopicConfigManager} {v : DataVersion}
    (hb : ∀ topic ∈ builtIn, topic ∈ m.topicConfigTable) (topic : Text) :
    (loaded builtIn (some (v, m.configs))).lookup topic = m.selectTopicConfig topic := by
  by_cases ht : topic ∈ m.configs
  · exact (AList.lookup_union_left ht).trans (lookup_configs m topic)
  · have hnone : m.selectTopicConfig topic = none := by
      rw [← lookup_configs]
      exact AList.lookup_eq_none.mpr ht
    have hnot : topic ∉ builtIn := by
      intro hmem
      obtain ⟨r, hr⟩ := mem_iff_lookup.mp (hb topic hmem)
      simp [TopicConfigManager.selectTopicConfig, hr] at hnone
    rw [hnone]
    exact (AList.lookup_union_right ht).trans (AList.lookup_eq_none.mpr hnot)

lemma Inv.persistEnd (h : Inv id builtIn s) {i : ℕ} {v : DataVersion}
    (hi : s.ops[i]? = some (.persisting v)) :
    Inv id builtIn { s with file := some (v, s.topics.configs), ops := s.ops.eraseIdx i } := by
  have hlt := (List.getElem?_eq_some_iff.mp hi).1
  refine h.ops (fun hc => mem_eraseIdx_of_ne hi hc (by simp))
    (List.ne_nil_of_length_pos (by omega)) (fun v' hv' => ?_) (fun hops f hf => ?_)
  · exact (h.persisting v' (List.mem_of_mem_eraseIdx hv')).imp_right
      fun hb => mem_eraseIdx_of_ne hi hb (by simp)
  · obtain rfl := Option.some.inj hf
    refine ⟨?_, fun hb e topic => ?_⟩
    · refine (h.persisting v (List.mem_of_getElem? hi)).resolve_right fun hb => ?_
      have := mem_eraseIdx_of_ne hi hb (by simp)
      rw [hops] at this
      simp at this
    · rw [lookup_loaded_configs hb, view]

/-! ### Registering -/

/-- Setting the permission of every topic is not seen under a permission in force. -/
lemma view_setPerms (m : TopicConfigManager) (refs : Table Text ℕ) (p q : Int32) (topic : Text) :
    view (some q) { m with heap := setPerms p refs m.heap } topic = view (some q) m topic := by
  unfold view TopicConfigManager.selectTopicConfig
  cases m.topicConfigTable.lookup topic with
  | none => rfl
  | some r =>
    simp only [Option.map_some, setPerms]
    split_ifs <;> rfl

/-- A registration begins; `heap` are the objects after their permissions have been set. -/
lemma Inv.begin (h : Inv id builtIn s) (hnone : s.registering = none) (heap : ℕ → TopicConfig)
    (restricted : Option (Int32 × Table Text ℕ))
    (hview : ∀ e, (e = restricted.map (·.1) ∨ ∃ p, e = some p) → ∀ topic,
      view e { s.topics with heap := heap } topic = view e s.topics topic)
    (hsteady : ∀ m ∈ s.made, m.1 = s.topics.dataVersion → m.2 = restricted.map (·.1))
    (hperm : restricted.map (·.1) = inForce s.brokerPermission)
    (hcopy : ∀ copy ∈ restricted, copy.2 = s.topics.topicConfigTable ∧
      ∀ topic ref, copy.2.lookup topic = some ref → (heap ref).perm = copy.1) :
    Inv id builtIn { s with
      topics := { s.topics with heap := heap }
      registering := some ⟨restricted, none, s.ops = []⟩ } where
  tidy := h.tidy
  allocated := h.allocated
  known := h.known
  version := h.version
  persisting := h.persisting
  file hops f hf := by
    refine ⟨(h.file hops f hf).1, fun hb e he topic => ?_⟩
    have hcomp : Comparable s e := fun henone => ⟨(he henone).1, by simp [hnone]⟩
    rw [(h.file hops f hf).2 hb e hcomp topic]
    refine (hview e ?_ topic).symm
    cases e with
    | none =>
      have hplain : restricted = none := (he rfl).2 _ rfl rfl
      exact .inl (by rw [hplain]; rfl)
    | some p => exact .inr ⟨p, rfl⟩
  agree := h.agree
  registering r hr := by
    obtain rfl := Option.some.inj hr
    refine ⟨fun copy hmem => ?_, fun _ => hsteady, by simp, fun hq => ?_⟩
    · obtain ⟨h1, h2⟩ := hcopy copy hmem
      exact ⟨h1 ▸ h.allocated, h2⟩
    · exact ⟨by simpa using hq, hperm, by simp⟩
  flights f hf := by
    have hok := h.flights f hf
    refine ⟨hok.made, fun hc topic c hv => ?_, hok.quiet⟩
    rw [hview _ (.inl (hsteady _ hok.made hc.1))] at hv
    exact hok.table hc topic c hv
  routes info hinfo := by
    obtain ⟨e, he, hq⟩ := h.routes info hinfo
    refine ⟨e, he, fun hc topic c hv => ?_⟩
    rw [hview _ (.inl (hsteady _ he hc.1))] at hv
    exact hq hc topic c hv

lemma Inv.registerBrokerAll (h : Inv id builtIn s) (hnone : s.registering = none)
    (hsteady : ∀ m ∈ s.made, m.1 = s.topics.dataVersion → m.2 = inForce s.brokerPermission) :
    Inv id builtIn (beginRegistering s) := by
  unfold beginRegistering
  cases hf : inForce s.brokerPermission with
  | none =>
    rw [hf] at hsteady
    exact h.begin hnone s.topics.heap none (fun _ _ _ => rfl) hsteady hf.symm (by simp)
  | some p =>
    rw [hf] at hsteady
    refine h.begin hnone _ (some (p, s.topics.topicConfigTable)) (fun e he topic => ?_) hsteady
      hf.symm (fun copy hcopy => ?_)
    · obtain ⟨q, rfl⟩ : ∃ q, e = some q := by
        rcases he with rfl | he
        · exact ⟨p, rfl⟩
        · exact he
      exact view_setPerms ..
    · obtain rfl := Option.some.inj hcopy
      refine ⟨rfl, fun topic ref href => ?_⟩
      have hmem : ref ∈ s.topics.topicConfigTable.entries.map (·.2) :=
        List.mem_map.mpr ⟨⟨topic, ref⟩, mem_entries_iff.mpr href, rfl⟩
      simp only [setPerms, if_pos hmem]

lemma Inv.encodeVersion (h : Inv id builtIn s) {restricted : Option (Int32 × Table Text ℕ)}
    {quiet : Bool} (hr : s.registering = some ⟨restricted, none, quiet⟩)
    (hsteady : ∀ copy ∈ restricted,
      (∀ topic, copy.2.lookup topic = s.topics.topicConfigTable.lookup topic) ∨
        Stage.changed ∈ s.ops) :
    Inv id builtIn { s with
      registering := some ⟨restricted, some s.topics.dataVersion, quiet⟩
      made := (s.topics.dataVersion, restricted.map (·.1)) :: s.made } := by
  have hok := h.registering _ hr
  have hstarted := hok.started rfl
  refine ⟨h.tidy, h.allocated, fun m hm => ?_, h.version, h.persisting, fun hops f hf => ?_,
    fun m hm m' hm' hv hv' => ?_, fun r hr' => ?_, fun f hf => ?_, fun info hinfo => ?_⟩
  · rcases List.mem_cons.mp hm with rfl | hm
    · exact h.version
    · exact h.known m hm
  · refine ⟨(h.file hops f hf).1, fun hb e he => (h.file hops f hf).2 hb e fun hnone => ?_⟩
    have hfree := (he hnone).1
    refine ⟨fun p hp => hfree p (List.mem_cons_of_mem _ hp), fun r hr' _ => ?_⟩
    obtain rfl := Option.some.inj (hr.symm.trans hr')
    cases restricted with
    | none => rfl
    | some copy => exact absurd List.mem_cons_self (hfree copy.1)
  · rcases List.mem_cons.mp hm with rfl | hm <;> rcases List.mem_cons.mp hm' with rfl | hm'
    · rfl
    · exact (hstarted m' hm' hv').symm
    · exact hstarted m hm hv
    · exact h.agree m hm m' hm' hv hv'
  · obtain rfl := Option.some.inj hr'
    refine ⟨hok.perms, by simp, fun v hv => ?_, fun hq => ?_⟩
    · obtain rfl := Option.some.inj hv
      refine ⟨List.mem_cons_self, fun hcur copy hcopy => ?_⟩
      exact (hsteady copy hcopy).resolve_right hcur.2
    · obtain ⟨h1, h2, -⟩ := hok.quiet hq
      exact ⟨h1, h2, fun v hv => (Option.some.inj hv).symm⟩
  · have hfok := h.flights f hf
    exact ⟨List.mem_cons_of_mem _ hfok.made, hfok.table, hfok.quiet⟩
  · obtain ⟨e, he, hq⟩ := h.routes info hinfo
    exact ⟨e, List.mem_cons_of_mem _ he, hq⟩

lemma permit_self {c : TopicConfig} {p : Int32} (h : c.perm = p) : permit (some p) c = c := by
  subst h
  rfl

lemma Inv.encodeTable (h : Inv id builtIn s) {restricted : Option (Int32 × Table Text ℕ)}
    {v : DataVersion} {quiet : Bool} (hr : s.registering = some ⟨restricted, some v, quiet⟩) :
    Inv id builtIn { s with
      registering := none
      flights := s.flights ++ [⟨v,
        deref s.topics.heap ((restricted.map (·.2)).getD s.topics.topicConfigTable),
        restricted.map (·.1), quiet⟩] } := by
  have hok := h.registering _ hr
  refine ⟨h.tidy, h.allocated, h.known, h.version, h.persisting, fun hops f hf => ?_, h.agree,
    by simp, fun f hf => ?_, h.routes⟩
  · refine ⟨(h.file hops f hf).1, fun hb e he => (h.file hops f hf).2 hb e fun hnone => ?_⟩
    refine ⟨(he hnone).1, fun r hr' hv => ?_⟩
    obtain rfl := Option.some.inj (hr.symm.trans hr')
    simp at hv
  · rcases List.mem_append.mp hf with hf | hf
    · have hfok := h.flights f hf
      exact ⟨hfok.made, hfok.table, hfok.quiet⟩
    · obtain rfl := List.mem_singleton.mp hf
      refine ⟨(hok.versioned v rfl).1, fun hcur topic c hv => ?_, fun hq => ?_⟩
      · obtain ⟨c₀, hc₀, rfl⟩ := Option.map_eq_some_iff.mp hv
        obtain ⟨ref, href, rfl⟩ := Option.map_eq_some_iff.mp hc₀
        cases restricted with
        | none => simp [href, permit]
        | some copy =>
          have hsame := (hok.versioned v rfl).2 hcur copy rfl topic
          have hperm := (hok.perms copy rfl).2 topic ref (hsame.trans href)
          simp only [Option.map_some, Option.getD_some, lookup_deref, hsame, href,
            permit_self hperm]
      · obtain ⟨h1, h2, h3⟩ := hok.quiet hq
        exact ⟨h1, h2, h3 v rfl⟩

/-! ### The name server -/

lemma not_updates {routes : RouteInfoManager} {r : Registration} (hid : r.brokerId = MASTER_ID)
    (h : updates r routes = false) :
    ∃ info ∈ routes.brokerLiveTable.lookup r.brokerAddr, info.dataVersion = r.dataVersion := by
  by_contra hno
  rw [RouteTopics.updates_of_version hid fun info hinfo heq => hno ⟨info, hinfo, heq⟩] at h
  simp at h

/-- A registration reaches the name server. -/
lemma Inv.deliver (h : Inv id builtIn s) {i : ℕ} {f : Flight} (hi : s.flights[i]? = some f)
    (fs : Option (List Text)) (ch : Channel) (now : Int64) :
    Inv id builtIn { s with
      routes := (registerBroker (registration id f fs ch now) s.routes).2
      flights := s.flights.eraseIdx i } where
  tidy := h.tidy.register _
  allocated := h.allocated
  known := h.known
  version := h.version
  persisting := h.persisting
  file := h.file
  agree := h.agree
  registering r hr :=
    ⟨(h.registering r hr).perms, (h.registering r hr).started, (h.registering r hr).versioned,
      (h.registering r hr).quiet⟩
  flights g hg := by
    have hok := h.flights g (List.mem_of_mem_eraseIdx hg)
    exact ⟨hok.made, hok.table, hok.quiet⟩
  routes info hinfo := by
    have hok := h.flights f (List.mem_of_getElem? hi)
    have hinfo' : info.dataVersion = f.dataVersion := by
      have heq : (registerBroker (registration id f fs ch now) s.routes).2.brokerLiveTable.lookup
          id.brokerAddr = some ⟨now, f.dataVersion, ch, id.haServerAddr⟩ := AList.lookup_insert _
      rw [Option.mem_def, heq] at hinfo
      rw [← Option.some.inj hinfo]
    rw [hinfo']
    refine ⟨f.permission, hok.made, fun hcur topic c hv => ?_⟩
    by_cases hu : updates (registration id f fs ch now) s.routes
    · exact h.tidy.reflects_register hu topic c (hok.table hcur topic c hv)
    · rw [Bool.not_eq_true] at hu
      -- the name server has this version, registered with the same permission
      obtain ⟨old, hold, hver⟩ := not_updates rfl hu
      obtain ⟨e, he, hq⟩ := h.routes old hold
      have hver' : old.dataVersion = f.dataVersion := hver
      rw [hver'] at he hq
      have hsame : e = f.permission := h.agree _ he _ hok.made hcur.1 hcur.1
      refine Eq.trans (RouteTopics.queuesOf_register_skipped hu _ _) (hq hcur topic c ?_)
      rwa [hsame]

/-! ### Restarts -/

lemma Inv.restart (h : Inv id builtIn s) (hops : s.ops = []) (hreg : s.registering = none)
    (hb : ∀ topic ∈ builtIn, topic ∈ s.topics.topicConfigTable)
    {now : Int64} (hnow : now ∉ s.earlier ++ s.readings) (p : Int32) :
    Inv id builtIn { s with
      topics := load builtIn s.file now
      brokerPermission := p
      ops := []
      registering := none
      flights := []
      earlier := s.earlier ++ s.readings
      readings := [now] } := by
  -- the same version with what is read under the permissions it was registered with, or a version
  -- that nobody knows
  have hversion := dataVersion_load builtIn s.file now
  have hload : ∀ v, (load builtIn s.file now).dataVersion = v → (∃ e, (v, e) ∈ s.made) →
      v = s.topics.dataVersion ∧ ∀ e, (v, e) ∈ s.made → ∀ topic,
        view e (load builtIn s.file now) topic = view e s.topics topic := by
    rintro v rfl ⟨e₀, he₀⟩
    cases hfile : s.file with
    | none =>
      rw [hfile] at he₀
      exact absurd (h.known _ he₀).1 (by rw [dataVersion_load]; exact hnow)
    | some f =>
      obtain ⟨h1, h2⟩ := h.file hops f hfile
      have hv : (load builtIn (some f) now).dataVersion = s.topics.dataVersion := by
        rw [dataVersion_load]
        exact h1
      refine ⟨hv, fun e he topic => ?_⟩
      rw [view, select_load]
      refine h2 hb e (fun hnone => ⟨fun q hq => ?_, by simp [hreg]⟩) topic
      rw [hv] at he
      have := h.agree _ he _ hq rfl rfl
      rw [hnone] at this
      simp at this
  refine ⟨h.tidy, allocated_load builtIn s.file now, fun m hm => ?_, ?_, by simp, fun _ f hf => ?_,
    fun m hm m' hm' hv hv' => ?_, by simp, by simp, fun info hinfo => ?_⟩
  · exact ⟨List.mem_append_left _ (h.known m hm).1, .inl (h.known m hm).1⟩
  · refine ⟨?_, .inr le_rfl⟩
    simp only [hversion]
    cases hfile : s.file with
    | none => simp
    | some f =>
      have h1 := (h.file hops f hfile).1
      simp only [Option.map_some, Option.getD_some, h1]
      exact List.mem_append_left _ h.version.1
  · have hfile : s.file = some f := hf
    refine ⟨?_, fun _ e _ topic => ?_⟩
    · refine (hversion.trans ?_).symm
      rw [hfile]
      rfl
    · rw [view, select_load, hfile]
  · obtain ⟨h1, -⟩ := hload _ hv.symm ⟨_, hm⟩
    exact h.agree m hm m' hm' h1 (hv'.trans (hv.symm.trans h1))
  · obtain ⟨e, he, hq⟩ := h.routes info hinfo
    refine ⟨e, he, fun hcur topic c hv => ?_⟩
    obtain ⟨h1, h2⟩ := hload _ hcur.1.symm ⟨e, he⟩
    have hnochange : Stage.changed ∉ s.ops := by simp [hops]
    exact hq ⟨h1, hnochange⟩ topic c (h2 e he topic ▸ hv)

/-! ### Every run -/

lemma inv_boot (file : Option (DataVersion × TopicConfigTable)) (p : Int32) (now : Int64) :
    Inv id builtIn (boot builtIn file p now) := by
  refine ⟨⟨by simp [boot, newRouteInfoManager], by simp [boot, newRouteInfoManager],
    by simp [boot, newRouteInfoManager]⟩, allocated_load builtIn file now, by simp [boot], ?_,
    by simp [boot],
    fun _ f hf => ?_, by simp [boot], by simp [boot], by simp [boot],
    by simp [boot, newRouteInfoManager]⟩
  · refine ⟨?_, .inr le_rfl⟩
    simp only [boot, dataVersion_load]
    cases file <;> simp
  · have hfile : file = some f := hf
    subst hfile
    refine ⟨?_, fun _ e _ topic => ?_⟩
    · simp [boot, dataVersion_load]
    · simp only [boot, view, select_load]

lemma step_inv (s : Broker) (a : Action) (s' : Broker) (h : Inv id builtIn s)
    (hok : Steady builtIn s a ∧ Clock s a) (hs : step id builtIn s a = some s') :
    Inv id builtIn s' := by
  obtain ⟨hsteady, hclock⟩ := hok
  cases a with
  | change c =>
    simp only [step] at hs
    split at hs
    · exact Option.some.inj hs ▸ h
    · next topics hc => exact Option.some.inj hs ▸ h.change (changed_of_change hc)
  | nextVersion i now =>
    simp only [step] at hs
    split_ifs at hs with hi
    exact Option.some.inj hs ▸ h.nextVersion hclock hi
  | persistBegin i =>
    simp only [step] at hs
    split_ifs at hs with hi
    exact Option.some.inj hs ▸ h.persistBegin hi.1 hi.2
  | persistEnd i =>
    simp only [step] at hs
    split at hs
    · next v hi => exact Option.some.inj hs ▸ h.persistEnd hi
    · simp at hs
  | updateBrokerConfig p => exact Option.some.inj hs ▸ h.updateBrokerConfig p
  | registerBrokerAll =>
    simp only [step] at hs
    split_ifs at hs with hnone
    exact Option.some.inj hs ▸ h.registerBrokerAll (Option.isNone_iff_eq_none.mp hnone) hsteady
  | encodeVersion =>
    simp only [step] at hs
    split at hs
    · next restricted quiet hr =>
      exact Option.some.inj hs ▸ h.encodeVersion hr (hsteady _ hr)
    · simp at hs
  | encodeTable =>
    simp only [step] at hs
    split at hs
    · next restricted v quiet hr => exact Option.some.inj hs ▸ h.encodeTable hr
    · simp at hs
  | deliver i fs ch now =>
    obtain ⟨f, hf, rfl⟩ := Option.map_eq_some_iff.mp hs
    exact h.deliver hf fs ch now
  | restart p now =>
    obtain ⟨h1, h2, -, h4⟩ := hsteady
    exact Option.some.inj hs ▸ h.restart h1 h2 h4 hclock p

/-- After a registration that began after all changes. -/
lemma Inv.follows (h : Inv id builtIn s) {i : ℕ} {f : Flight} (hi : s.flights[i]? = some f)
    (hquiet : f.quiet) (fs : Option (List Text)) (ch : Channel) (now : Int64) :
    Follows id { s with
      routes := (registerBroker (registration id f fs ch now) s.routes).2
      flights := s.flights.eraseIdx i } := by
  have hok := h.flights f (List.mem_of_getElem? hi)
  obtain ⟨hops, hperm, hver⟩ := hok.quiet hquiet
  have hinfo : (registerBroker (registration id f fs ch now) s.routes).2.brokerLiveTable.lookup
      id.brokerAddr = some ⟨now, f.dataVersion, ch, id.haServerAddr⟩ := AList.lookup_insert _
  obtain ⟨e, he, hq⟩ := (h.deliver hi fs ch now).routes _ hinfo
  have hsame : e = f.permission := h.agree _ he _ hok.made hver hver
  intro topic c hc
  refine hq ⟨hver, by simp [hops]⟩ topic _ ?_
  rw [hsame, hperm, view]
  simp only [hc, Option.map_some]

/-- **The name server follows the broker.** In every run in which registrations under one version
are made with one permission, a registration that begins after all changes have finished leaves
exactly one entry for every topic of the broker's table, with the permission in force. -/
theorem follows_after_registration {file : Option (DataVersion × TopicConfigTable)} {p : Int32}
    {t₀ : Int64} {actions : List Action} {s s' : Broker} {i : ℕ} {f : Flight}
    {fs : Option (List Text)} {ch : Channel} {now : Int64}
    (hclock : Meets (step id builtIn) Clock (boot builtIn file p t₀) actions)
    (hsteady : Meets (step id builtIn) (Steady builtIn) (boot builtIn file p t₀) actions)
    (hr : run (step id builtIn) (boot builtIn file p t₀) actions = some s)
    (hf : s.flights[i]? = some f) (hquiet : f.quiet)
    (hs : step id builtIn s (.deliver i fs ch now) = some s') : Follows id s' := by
  have h := run_invariant step_inv (inv_boot file p t₀) (hsteady.and hclock) hr
  obtain ⟨f', hf', rfl⟩ := Option.map_eq_some_iff.mp hs
  obtain rfl := Option.some.inj (hf.symm.trans hf')
  exact h.follows hf hquiet fs ch now

/-! ### A permission that changes without a version -/

instance (s : Broker) : (a : Action) → Decidable (Clock s a)
  | .nextVersion _ now => inferInstanceAs (Decidable (now ∉ s.earlier))
  | .restart _ now => inferInstanceAs (Decidable (now ∉ s.earlier ++ s.readings))
  | .change _ | .persistBegin _ | .persistEnd _ | .updateBrokerConfig _ | .registerBrokerAll
  | .encodeVersion | .encodeTable | .deliver _ _ _ _ => inferInstanceAs (Decidable True)

def testId : Identity := ⟨"c".toList, "1.1.1.1:10911".toList, "b".toList, none⟩

def testTopics : TopicConfigTable := AList.singleton "T".toList {}

def testBroker : Broker := boot testTopics none (PERM_READ ||| PERM_WRITE) 0

/-- A registration up to its delivery. -/
def sent : List Action := [.registerBrokerAll, .encodeVersion, .encodeTable]

/-- The broker registers, and again after it may only be read. -/
def restrictedLater : List Action :=
  sent ++ [.deliver 0 none 1 1, .updateBrokerConfig PERM_READ] ++ sent

/-- What is seen of the topic at the name server, and whether the last registration is quiet. -/
def seen (s : Broker) : Option (Bool × List Int32) :=
  s.flights.head?.map fun f =>
    (f.quiet, (queuesOf "b".toList "T".toList
      (registerBroker (registration testId f none 1 2) s.routes).2).map QueueData.perm)

theorem follows_after_registration_restricted :
    Meets (step testId testTopics) Clock testBroker restrictedLater ∧
      ∃ s f s', run (step testId testTopics) testBroker restrictedLater = some s ∧
        s.flights[0]? = some f ∧ f.quiet ∧
        step testId testTopics s (.deliver 0 none 1 2) = some s' ∧ ¬ Follows testId s' := by
  have hclock : checks (step testId testTopics) (fun s a => decide (Clock s a)) testBroker
      restrictedLater := by decide
  have hrun : (run (step testId testTopics) testBroker restrictedLater).bind (fun s =>
      (seen s).map fun o => (o, (s.topics.selectTopicConfig "T".toList).isSome,
        inForce s.brokerPermission)) = some ((true, [6]), true, some 4) := by
    decide
  obtain ⟨s, hs, hmap⟩ := Option.bind_eq_some_iff.mp hrun
  obtain ⟨o, ho, heq⟩ := Option.map_eq_some_iff.mp hmap
  obtain ⟨f, hf, rfl⟩ := Option.map_eq_some_iff.mp ho
  simp only [Prod.mk.injEq] at heq
  obtain ⟨⟨hquiet, hperm⟩, htopic, hforce⟩ := heq
  have hf' : s.flights[0]? = some f := by rw [← hf, List.head?_eq_getElem?]
  refine ⟨meets_of_checks (fun _ _ h => of_decide_eq_true h) hclock, s, f, _, hs, hf', hquiet,
    Option.map_eq_some_iff.mpr ⟨f, hf', rfl⟩, fun hfollows => ?_⟩
  obtain ⟨c, hc⟩ := Option.isSome_iff_exists.mp htopic
  have hqueues := hfollows "T".toList c hc
  simp only [hforce] at hqueues
  rw [show testId.brokerName = "b".toList from rfl] at hqueues
  rw [hqueues] at hperm
  exact absurd hperm (by simp [queueData, permit])

/-- A topic is created between two registrations. -/
def createdLater : List Action :=
  sent ++ [.deliver 0 none 1 1, .change (.updateTopicConfig "U".toList {}), .nextVersion 0 1,
    .persistBegin 0, .persistEnd 0] ++ sent

/-- `Steady`, for a broker that is readable and writeable and is not restarted. -/
def plain (s : Broker) : Action → Bool
  | .registerBrokerAll =>
    s.made.all fun m => decide (m.2 = none) && decide (inForce s.brokerPermission = none)
  | .encodeVersion => s.registering.all fun r => r.restricted.isNone
  | .restart _ _ => false
  | _ => true

lemma steady_of_plain {s : Broker} {a : Action} (h : plain s a) : Steady testTopics s a := by
  cases a with
  | registerBrokerAll =>
    intro m hm _
    have := List.all_eq_true.mp h m hm
    simp only [Bool.and_eq_true, decide_eq_true_eq] at this
    rw [this.1, this.2]
  | encodeVersion =>
    intro r hr copy hcopy
    have hr' : s.registering = some r := hr
    simp only [plain, hr', Option.all_some] at h
    rw [Option.mem_def.mp hcopy] at h
    simp at h
  | restart p now => simp [plain] at h
  | change c => trivial
  | nextVersion i now => trivial
  | persistBegin i => trivial
  | persistEnd i => trivial
  | updateBrokerConfig p => trivial
  | encodeTable => trivial
  | deliver i fs ch now => trivial

theorem follows_after_registration_created :
    ∃ s f s', run (step testId testTopics) testBroker createdLater = some s ∧
      s.flights[0]? = some f ∧ f.quiet ∧ (s.topics.selectTopicConfig "U".toList).isSome ∧
      step testId testTopics s (.deliver 0 none 1 2) = some s' ∧ Follows testId s' := by
  have hclock : checks (step testId testTopics) (fun s a => decide (Clock s a)) testBroker
      createdLater := by decide
  have hplain : checks (step testId testTopics) plain testBroker createdLater := by decide
  have hrun : (run (step testId testTopics) testBroker createdLater).bind (fun s =>
      s.flights.head?.map fun f =>
        (f.quiet, (s.topics.selectTopicConfig "U".toList).isSome)) = some (true, true) := by
    decide
  obtain ⟨s, hs, hmap⟩ := Option.bind_eq_some_iff.mp hrun
  obtain ⟨f, hf, heq⟩ := Option.map_eq_some_iff.mp hmap
  have hf' : s.flights[0]? = some f := by rw [← hf, List.head?_eq_getElem?]
  obtain ⟨s', hs'⟩ : ∃ s', step testId testTopics s (.deliver 0 none 1 2) = some s' :=
    ⟨_, Option.map_eq_some_iff.mpr ⟨f, hf', rfl⟩⟩
  exact ⟨s, f, s', hs, hf', (Prod.mk.inj heq).1, (Prod.mk.inj heq).2, hs',
    follows_after_registration (meets_of_checks (fun _ _ h => of_decide_eq_true h) hclock)
      (meets_of_checks (fun _ _ => steady_of_plain) hplain) hs hf' (Prod.mk.inj heq).1 hs'⟩

end CloudMQ.Following
