import CloudMQ.ConsumerOffsets
import CloudMQ.Runs

/-!
What a consumer group reads of its offsets, against what was last written for it.
-/

namespace CloudMQ.OffsetTable

open CloudMQ.Utf8 CloudMQ.Strings CloudMQ.Tables CloudMQ.ConsumerOffsets CloudMQ.Runs

/-- The name of a topic or of a group. -/
structure Name where
  text : Text
  noSeparator : TOPIC_GROUP_SEPARATOR ∉ text

instance : DecidableEq Name := fun a b =>
  decidable_of_iff (a.text = b.text) ⟨fun h => by cases a; cases b; cases h; rfl, congrArg _⟩

inductive Action
  | commitOffset (group topic : Name) (queueId : Int32) (offset : Int64)
  | cloneOffset (srcGroup destGroup topic : Name)
  | queryMinOffsetInAllGroup (walk : List Text) (getMinOffsetInQuque : Int32 → Int64)
      (topic : Name) (filterGroups : Option Text)

/-- The last value written, by topic, group and queue. -/
abbrev Written := Name → Name → Int32 → Option Int64

/-- The table, and what was last written. -/
structure State where
  manager : ConsumerOffsetManager
  written : Written

def newState : State := ⟨{}, fun _ _ _ => none⟩

/-- A commit writes its triple; a clone writes, for every queue that the source has a value of,
the triple of the destination. -/
def Action.write (w : Written) : Action → Written
  | .commitOffset group topic queueId offset => fun topic' group' queueId' =>
    if topic' = topic ∧ group' = group ∧ queueId' = queueId then some offset
    else w topic' group' queueId'
  | .cloneOffset srcGroup destGroup topic => fun topic' group' queueId' =>
    if topic' = topic ∧ group' = destGroup then
      (w topic srcGroup queueId').or (w topic destGroup queueId')
    else w topic' group' queueId'
  | .queryMinOffsetInAllGroup .. => w

def Action.apply (m : ConsumerOffsetManager) : Action → ConsumerOffsetManager
  | .commitOffset group topic queueId offset => m.commitOffset group.text topic.text queueId offset
  | .cloneOffset srcGroup destGroup topic => m.cloneOffset srcGroup.text destGroup.text topic.text
  | .queryMinOffsetInAllGroup walk getMinOffsetInQuque topic filterGroups =>
    (m.queryMinOffsetInAllGroup walk getMinOffsetInQuque topic.text filterGroups).2

def step (s : State) (a : Action) : Option State :=
  some ⟨a.apply s.manager, a.write s.written⟩

/-- Every triple reads as it was last written. -/
def Sound (s : State) : Prop := ∀ topic group queueId,
  s.manager.queryOffset group.text topic.text queueId = (s.written topic group queueId).getD (-1)

def Name.key (topic group : Name) : Text := topicAtGroup topic.text group.text

/-- A commit goes to a map that no other key refers to, or changes nothing there; a clone replaces
a map whose queues the source has all; a filter names no group of the table. -/
def Separate (s : State) : Action → Prop
  | .commitOffset group topic queueId offset => ∀ key, key ≠ topic.key group →
    s.manager.offsetTable.lookup key = s.manager.offsetTable.lookup (topic.key group) →
    s.manager.offsetTable.lookup key = none ∨ s.manager.find key queueId = some offset
  | .cloneOffset srcGroup destGroup topic =>
    s.manager.offsetTable.lookup (topic.key srcGroup) = none ∨
      ∀ queueId, s.manager.find (topic.key destGroup) queueId ≠ none →
        s.manager.find (topic.key srcGroup) queueId ≠ none
  | .queryMinOffsetInAllGroup _ _ _ filterGroups =>
    ∀ group ∈ ConsumerOffsetManager.filterPieces filterGroups, ∀ key ∈ s.manager.offsetTable,
      (split TOPIC_GROUP_SEPARATOR key)[1]? ≠ some group

/-! ### The invariant -/

structure Inv (s : State) : Prop where
  valid : s.manager.Valid
  read : ∀ topic group queueId, s.manager.find (topic.key group) queueId =
    s.written topic group queueId

lemma inv_new : Inv newState where
  valid := fun key map h => by cases h
  read := fun _ _ _ => rfl

lemma Inv.sound {s : State} (h : Inv s) : Sound s := fun topic group queueId => by
  rw [← h.read]
  rfl

/-- A key tells its topic and its group. -/
lemma key_inj {topic group topic' group' : Name} :
    topic.key group = topic'.key group' ↔ topic = topic' ∧ group = group' := by
  constructor
  · obtain ⟨t, ht⟩ := topic
    obtain ⟨t', ht'⟩ := topic'
    obtain ⟨g, hg⟩ := group
    obtain ⟨g', hg'⟩ := group'
    intro h
    have hparts : t = t' ∧ g = g' := by
      have h' : t ++ TOPIC_GROUP_SEPARATOR :: g = t' ++ TOPIC_GROUP_SEPARATOR :: g' := h
      clear h
      induction t generalizing t' with
      | nil =>
        cases t' with
        | nil => exact ⟨rfl, (List.cons.inj h').2⟩
        | cons c t' =>
          obtain ⟨hc, -⟩ := List.cons.inj h'
          exact absurd (hc ▸ List.mem_cons_self) ht'
      | cons c t ih =>
        cases t' with
        | nil =>
          obtain ⟨hc, -⟩ := List.cons.inj h'
          exact absurd (hc ▸ List.mem_cons_self) ht
        | cons c' t' =>
          obtain ⟨rfl, hrest⟩ := List.cons.inj h'
          obtain ⟨rfl, hg⟩ := ih (fun hmem => ht (List.mem_cons_of_mem c hmem)) t'
            (fun hmem => ht' (List.mem_cons_of_mem c hmem)) hrest
          exact ⟨rfl, hg⟩
    obtain ⟨rfl, rfl⟩ := hparts
    exact ⟨rfl, rfl⟩
  · rintro ⟨rfl, rfl⟩
    rfl

/-- The key of the destination refers to the map of the source. -/
lemma find_cloneOffset {m : ConsumerOffsetManager} (srcGroup destGroup topic : Name) (key : Text) (queueId : Int32) :
    (m.cloneOffset srcGroup.text destGroup.text topic.text).find key queueId =
      if topic.key srcGroup ∈ m.offsetTable ∧ key = topic.key destGroup then
        m.find (topic.key srcGroup) queueId
      else m.find key queueId := by
  rw [ConsumerOffsetManager.cloneOffset, ← Name.key]
  cases hmap : m.offsetTable.lookup (topic.key srcGroup) with
  | none => exact (if_neg fun h => AList.lookup_eq_none.mp hmap h.1).symm
  | some offsets =>
    change ConsumerOffsetManager.find
      { m with offsetTable := m.offsetTable.insert (topic.key destGroup) offsets } key queueId = _
    have hmem : topic.key srcGroup ∈ m.offsetTable := mem_iff_lookup.mpr ⟨offsets, hmap⟩
    rw [ConsumerOffsetManager.find, lookup_insert_ite]
    by_cases hkey : key = topic.key destGroup
    · rw [if_pos hkey, if_pos ⟨hmem, hkey⟩, Option.bind_some, ConsumerOffsetManager.find_eq hmap]
    · rw [if_neg hkey, if_neg fun h => hkey h.2, ConsumerOffsetManager.find]

/-- A filter without groups of the table removes nothing. -/
lemma removeGroup_eq {group : Text} {keys : List Text} {t : Table Text ℕ}
    (h : ∀ key ∈ keys, (split TOPIC_GROUP_SEPARATOR key)[1]? ≠ some group) :
    (ConsumerOffsetManager.removeGroup group keys t).1 = t := by
  induction keys with
  | nil => rfl
  | cons key keys ih =>
    have hkey := h key List.mem_cons_self
    rw [ConsumerOffsetManager.removeGroup]
    cases hg : (split TOPIC_GROUP_SEPARATOR key)[1]? with
    | none => rfl
    | some g =>
      rw [hg, Ne, Option.some.injEq] at hkey
      simp only [if_neg (fun h : group = g => hkey h.symm)]
      exact ih fun key' hkey' => h key' (List.mem_cons_of_mem key hkey')

lemma removeGroups_eq {walk groups : List Text} {t : Table Text ℕ}
    (h : ∀ group ∈ groups, ∀ key ∈ t, (split TOPIC_GROUP_SEPARATOR key)[1]? ≠ some group) :
    (ConsumerOffsetManager.removeGroups walk groups t).1 = t := by
  induction groups with
  | nil => rfl
  | cons group groups ih =>
    have hone : (ConsumerOffsetManager.removeGroup group (order walk t) t).1 = t :=
      removeGroup_eq fun key hkey => h group List.mem_cons_self key (mem_order.mp hkey)
    simp only [ConsumerOffsetManager.removeGroups, hone]
    split
    · exact ih fun group' hgroup' => h group' (List.mem_cons_of_mem group hgroup')
    · exact hone

section

variable {s : State}

lemma Inv.commitOffset (h : Inv s) {group topic : Name} {queueId : Int32} {offset : Int64}
    (hok : Separate s (.commitOffset group topic queueId offset)) :
    Inv ⟨s.manager.commitOffset group.text topic.text queueId offset,
      Action.write s.written (.commitOffset group topic queueId offset)⟩ := by
  refine ⟨h.valid.putOffset, fun topic' group' queueId' => ?_⟩
  have hkey : (topic' = topic ∧ group' = group ∧ queueId' = queueId) ↔
      topic'.key group' = topic.key group ∧ queueId' = queueId := by
    rw [key_inj, and_assoc]
  have hread := h.read topic' group' queueId'
  simp only [Action.write, hkey]
  rw [ConsumerOffsetManager.commitOffset, ← hread]
  change (s.manager.putOffset (topic.key group)
    (s.manager.offsetTable.lookup (topic.key group)) queueId offset).find _ _ = _
  cases hmap : s.manager.offsetTable.lookup (topic.key group) with
  | none =>
    rw [ConsumerOffsetManager.find_putOffset_none h.valid]
    by_cases heq : topic'.key group' = topic.key group
    · have hnone : s.manager.find (topic'.key group') queueId' = none := by
        rw [heq, ConsumerOffsetManager.find, hmap]
        rfl
      simp only [heq, if_true, true_and]
      rw [← heq, hnone]
    · rw [if_neg heq, if_neg (fun hboth => heq hboth.1)]
  | some map =>
    rw [ConsumerOffsetManager.find_putOffset_some h.valid]
    by_cases heq : topic'.key group' = topic.key group
    · rw [heq, hmap]
      simp only [true_and]
    · rw [if_neg (fun hboth : topic'.key group' = topic.key group ∧ _ => heq hboth.1)]
      split_ifs with hshared
      · -- another key refers to the map: it holds the offset already
        obtain ⟨hlookup, rfl⟩ := hshared
        rcases hok _ heq (hlookup.trans hmap.symm) with hnone | hsame
        · rw [hlookup] at hnone
          cases hnone
        · exact hsame.symm
      · rfl

lemma Inv.cloneOffset (h : Inv s) {srcGroup destGroup topic : Name}
    (hok : Separate s (.cloneOffset srcGroup destGroup topic)) :
    Inv ⟨s.manager.cloneOffset srcGroup.text destGroup.text topic.text,
      Action.write s.written (.cloneOffset srcGroup destGroup topic)⟩ := by
  refine ⟨h.valid.cloneOffset _ _ _, fun topic' group' queueId' => ?_⟩
  dsimp only [Action.write]
  rw [find_cloneOffset]
  by_cases hdest : topic' = topic ∧ group' = destGroup
  · obtain ⟨rfl, rfl⟩ := hdest
    rw [if_pos (show topic' = topic' ∧ group' = group' from ⟨rfl, rfl⟩), ← h.read, ← h.read]
    by_cases hsrc : topic'.key srcGroup ∈ s.manager.offsetTable
    · rw [if_pos ⟨hsrc, rfl⟩]
      cases hfind : s.manager.find (topic'.key srcGroup) queueId' with
      | some offset => rfl
      | none =>
        -- the source has no offset of the queue, so the destination has none to lose
        have hall := hok.resolve_left (fun hnone => AList.lookup_eq_none.mp hnone hsrc) queueId'
        rw [Option.none_or]
        by_contra hne
        exact hall (fun hnone => hne hnone.symm) hfind
    · have hnone : s.manager.find (topic'.key srcGroup) queueId' = none := by
        rw [ConsumerOffsetManager.find, AList.lookup_eq_none.mpr hsrc]
        rfl
      rw [if_neg (fun hboth => hsrc hboth.1), hnone, Option.none_or]
  · rw [if_neg hdest, if_neg (fun hboth => hdest (key_inj.mp hboth.2)), h.read]

theorem inv_step {s' : State} {a : Action} (h : Inv s) (hok : Separate s a)
    (hs : step s a = some s') : Inv s' := by
  cases hs
  cases a with
  | commitOffset group topic queueId offset => exact h.commitOffset hok
  | cloneOffset srcGroup destGroup topic => exact h.cloneOffset hok
  | queryMinOffsetInAllGroup walk getMinOffsetInQuque topic filterGroups =>
    have hsame : (s.manager.queryMinOffsetInAllGroup walk getMinOffsetInQuque topic.text
        filterGroups).2 = s.manager := by
      rw [ConsumerOffsetManager.queryMinOffsetInAllGroup]
      dsimp only
      rw [removeGroups_eq hok]
    change Inv ⟨(s.manager.queryMinOffsetInAllGroup walk getMinOffsetInQuque topic.text
      filterGroups).2, s.written⟩
    rw [hsame]
    exact ⟨h.valid, h.read⟩

end

/-- **The offsets of a group.** While commits go to maps of one key, clones replace no queue that
the source lacks and filters name no group of the table, every triple reads as it was last
written. -/
theorem offsets_sound (as : List Action) (s : State) (hm : Meets step Separate newState as)
    (hr : run step newState as = some s) : Sound s :=
  (run_invariant (fun _ _ _ => inv_step) inv_new hm hr).sound

/-! ### Reads that differ -/

lemma noSeparator_t : TOPIC_GROUP_SEPARATOR ∉ ['t'] := by decide

lemma noSeparator_a : TOPIC_GROUP_SEPARATOR ∉ ['a'] := by decide

lemma noSeparator_b : TOPIC_GROUP_SEPARATOR ∉ ['b'] := by decide

def topicT : Name := ⟨['t'], noSeparator_t⟩

def groupA : Name := ⟨['a'], noSeparator_a⟩

def groupB : Name := ⟨['b'], noSeparator_b⟩

/-- A commit after a clone. -/
def commitAfterClone : List Action :=
  [.commitOffset groupA topicT 0 5, .cloneOffset groupA groupB topicT,
    .commitOffset groupA topicT 0 9]

/-- The state after a run. -/
def after (as : List Action) : State := (run step newState as).getD newState

theorem offsets_shared : ¬ ∀ as s, run step newState as = some s → Sound s := by
  intro h
  have hsound := h commitAfterClone (after commitAfterClone) rfl topicT groupB 0
  exact absurd hsound (by decide)

/-- A clone, and a query without a filter. -/
def cloneAndQuery : List Action :=
  [.commitOffset groupA topicT 0 5, .cloneOffset groupA groupB topicT,
    .queryMinOffsetInAllGroup [] (fun _ => 0) topicT none]

theorem offsets_sound_clone : Sound (after cloneAndQuery) := by
  refine offsets_sound cloneAndQuery _ ?_ rfl
  refine Meets.cons rfl ?_ (Meets.cons rfl ?_ (Meets.cons rfl ?_ trivial))
  · exact fun _ _ hlookup => .inl hlookup
  · exact .inr fun _ hne => absurd rfl hne
  · exact fun _ hgroup => absurd hgroup List.not_mem_nil

end CloudMQ.OffsetTable
