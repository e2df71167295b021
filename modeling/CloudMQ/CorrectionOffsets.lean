import CloudMQ.AdminOffsets

/-!
Correction offsets: for each queue of a topic, the offset that the slowest of its groups has come
to.

The query takes the groups of a filter out of the table, walks through the keys that are left, and
then looks a second map up to compare with.
-/

namespace CloudMQ.CorrectionOffsets

open CloudMQ.Utf8 CloudMQ.Strings CloudMQ.Tables CloudMQ.ConsumerOffsets CloudMQ.OffsetTable
open CloudMQ.AdminOffsets
open CloudMQ.ConsumerOffsets.ConsumerOffsetManager

structure QueryCorrectionOffsetHeader where
  filterGroups : Option Text
  compareGroup : Name
  topic : Name

/-- `queryOffset` of two arguments: a map of the table, or none. -/
def queryOffsets (m : ConsumerOffsetManager) (group topic : Text) : Option (Table Int32 Int64) :=
  (m.offsetTable.lookup (topicAtGroup topic group)).bind (m.maps[·]?)

/-- One round of the comparison; `none` is a `NullPointerException`, of the queue that the first map
does not have. -/
def compareOne (correctionOffset : Table Int32 Int64) (e : Sigma fun _ : Int32 => Int64) :
    Option (Table Int32 Int64) :=
  (correctionOffset.lookup e.1).map fun offset =>
    correctionOffset.insert e.1 (if offset > e.2 then Int64.maxValue else offset)

def queryCorrectionOffset (walk : List Text) (getMinOffsetInQuque : Int32 → Int64)
    (requestHeader : QueryCorrectionOffsetHeader) (m : ConsumerOffsetManager) :
    Option (Table Int32 Int64) × ConsumerOffsetManager :=
  let r := m.queryMinOffsetInAllGroup walk getMinOffsetInQuque requestHeader.topic.text
    requestHeader.filterGroups
  (r.1.bind fun correctionOffset =>
    -- the topic is handed over as the group, and the group as the topic
    match queryOffsets r.2 requestHeader.topic.text requestHeader.compareGroup.text with
    | some compareOffset => compareOffset.entries.foldlM compareOne correctionOffset
    | none => some correctionOffset, r.2)

/-! ### What the answer should be -/

section

variable (getMinOffsetInQuque : Int32 → Int64) (req : QueryCorrectionOffsetHeader)
  (m : ConsumerOffsetManager)

/-- An offset of a group that is not filtered, and not behind the store. -/
def Counted (queueId : Int32) (offset : Int64) : Prop :=
  ∃ group : Name, group.text ∉ filterPieces req.filterGroups ∧
    m.find (req.topic.key group) queueId = some offset ∧ getMinOffsetInQuque queueId ≤ offset

/-- The least element of a set of offsets, or that there is none. -/
def Least (S : Int64 → Prop) : Option Int64 → Prop
  | none => ∀ offset, ¬S offset
  | some offset => S offset ∧ ∀ offset', S offset' → offset ≤ offset'

/-- A group has an offset below another one. -/
def Behind (topic group : Name) (queueId : Int32) (offset : Int64) : Prop :=
  ∃ offset', m.find (topic.key group) queueId = some offset' ∧ offset' < offset

/-- The least of the counted offsets for each queue, and the largest value where the group that is
compared with is behind it. -/
def Corrected (answer : Table Int32 Int64) : Prop :=
  ∀ queueId least, Least (Counted getMinOffsetInQuque req m queueId) least →
    match least with
    | none => answer.lookup queueId = none
    | some offset =>
      (Behind m req.topic req.compareGroup queueId offset →
        answer.lookup queueId = some Int64.maxValue) ∧
      (¬Behind m req.topic req.compareGroup queueId offset →
        answer.lookup queueId = some offset)

/-- The map that is compared with: that of the topic as a group, of the group as a topic. -/
def Compared (queueId : Int32) (offset : Int64) : Prop :=
  req.topic.text ∉ filterPieces req.filterGroups ∧
    m.find (req.compareGroup.key req.topic) queueId = some offset

/-- No key of the table is refused, every queue of the map that is compared with has a counted
offset, and that map is behind the least of them exactly where the group's own one is. -/
structure Correctable : Prop where
  named : ∀ topic group : Name, topic.key group ∈ m.offsetTable → group.text = [] →
    filterPieces req.filterGroups = [] ∧ topic.text ≠ []
  counted : ∀ queueId offset, Compared req m queueId offset →
    ∃ offset', Counted getMinOffsetInQuque req m queueId offset'
  behind : ∀ queueId offset, Least (Counted getMinOffsetInQuque req m queueId) (some offset) →
    offset ≠ Int64.maxValue →
    ((∃ offset', Compared req m queueId offset' ∧ offset' < offset) ↔
      Behind m req.topic req.compareGroup queueId offset)

end

/-! ### The filter -/

section

variable {walk keys groups : List Text} {group : Text} {t : Table Text ℕ}

lemma removeGroup_spec (h : ∀ key ∈ keys, (split TOPIC_GROUP_SEPARATOR key)[1]? ≠ none) :
    (removeGroup group keys t).2 = true ∧ ∀ k, (removeGroup group keys t).1.lookup k =
      if k ∈ keys ∧ (split TOPIC_GROUP_SEPARATOR k)[1]? = some group then none
      else t.lookup k := by
  induction keys generalizing t with
  | nil => exact ⟨rfl, fun k => (if_neg fun h => List.not_mem_nil h.1).symm⟩
  | cons key keys ih =>
    obtain ⟨g, hg⟩ := Option.ne_none_iff_exists'.mp (h key List.mem_cons_self)
    obtain ⟨hok, hrest⟩ := @ih (if group = g then t.erase key else t)
      fun k hk => h k (List.mem_cons_of_mem key hk)
    rw [removeGroup, hg]
    refine ⟨hok, fun k => ?_⟩
    dsimp only
    rw [hrest k]
    by_cases hkey : k = key
    · subst hkey
      by_cases heq : group = g
      · subst heq
        rw [if_pos rfl, lookup_erase_ite, if_pos rfl, ite_self, if_pos ⟨List.mem_cons_self, hg⟩]
      · have hne : ¬(split TOPIC_GROUP_SEPARATOR k)[1]? = some group := by
          rw [hg, Option.some.injEq]
          exact fun h => heq h.symm
        rw [if_neg heq, if_neg fun h => hne h.2, if_neg fun h => hne h.2]
    · have hsame : (if group = g then t.erase key else t).lookup k = t.lookup k := by
        split_ifs
        · exact AList.lookup_erase_ne hkey
        · rfl
      simp only [hsame, List.mem_cons, or_iff_right hkey]

lemma mem_of_mem_removeGroup {k : Text} (h : k ∈ (removeGroup group keys t).1) : k ∈ t := by
  induction keys generalizing t with
  | nil => exact h
  | cons key keys ih =>
    rw [removeGroup] at h
    split at h
    · have hmem := ih h
      split_ifs at hmem
      · exact (AList.mem_erase.mp hmem).2
      · exact hmem
    · exact h

lemma removeGroup_fails (h : ∃ key ∈ keys, (split TOPIC_GROUP_SEPARATOR key)[1]? = none) :
    (removeGroup group keys t).2 = false := by
  induction keys generalizing t with
  | nil => exact absurd h (by simp)
  | cons key keys ih =>
    rw [removeGroup]
    cases hg : (split TOPIC_GROUP_SEPARATOR key)[1]? with
    | none => rfl
    | some g =>
      obtain ⟨key', hmem, hnone⟩ := h
      rcases List.mem_cons.mp hmem with rfl | hmem
      · rw [hg] at hnone
        cases hnone
      · exact ih ⟨key', hmem, hnone⟩

/-- The keys of the groups are gone. -/
lemma removeGroups_spec (h : ∀ key ∈ t, (split TOPIC_GROUP_SEPARATOR key)[1]? ≠ none) :
    (removeGroups walk groups t).2 = true ∧ ∀ k, (removeGroups walk groups t).1.lookup k =
      if ∃ g ∈ groups, (split TOPIC_GROUP_SEPARATOR k)[1]? = some g then none
      else t.lookup k := by
  induction groups generalizing t with
  | nil => exact ⟨rfl, fun k => (if_neg fun ⟨_, h, _⟩ => List.not_mem_nil h).symm⟩
  | cons group groups ih =>
    obtain ⟨hok, hone⟩ := @removeGroup_spec (order walk t) group t
      fun key hkey => h key (mem_order.mp hkey)
    have hsub : ∀ key ∈ (removeGroup group (order walk t) t).1,
        (split TOPIC_GROUP_SEPARATOR key)[1]? ≠ none := by
      intro key hkey
      obtain ⟨map, hmap⟩ := mem_iff_lookup.mp hkey
      rw [hone] at hmap
      split_ifs at hmap
      exact h key (mem_iff_lookup.mpr ⟨map, hmap⟩)
    obtain ⟨hokrest, hrest⟩ := ih hsub
    rw [removeGroups, if_pos hok]
    refine ⟨hokrest, fun k => ?_⟩
    rw [hrest, hone]
    simp only [mem_order, List.exists_mem_cons_iff]
    by_cases hrest : ∃ g ∈ groups, (split TOPIC_GROUP_SEPARATOR k)[1]? = some g
    · rw [if_pos hrest, if_pos (.inr hrest)]
    · rw [if_neg hrest]
      by_cases hgroup : (split TOPIC_GROUP_SEPARATOR k)[1]? = some group
      · simp only [hgroup, true_or, and_true, if_true]
        split_ifs with hk
        · rfl
        · exact AList.lookup_eq_none.mpr hk
      · simp only [hgroup, hrest, or_self, and_false, if_false]

lemma mem_of_mem_removeGroups {k : Text} (h : k ∈ (removeGroups walk groups t).1) : k ∈ t := by
  induction groups generalizing t with
  | nil => exact h
  | cons group groups ih =>
    rw [removeGroups] at h
    split_ifs at h
    · exact mem_of_mem_removeGroup (ih h)
    · exact mem_of_mem_removeGroup h

lemma removeGroups_fails (hne : groups ≠ [])
    (h : ∃ key ∈ t, (split TOPIC_GROUP_SEPARATOR key)[1]? = none) :
    (removeGroups walk groups t).2 = false := by
  obtain ⟨group, groups, rfl⟩ := List.exists_cons_of_ne_nil hne
  obtain ⟨key, hkey, hnone⟩ := h
  have hfails := @removeGroup_fails (order walk t) group t ⟨key, mem_order.mpr hkey, hnone⟩
  rw [removeGroups, if_neg (by rw [hfails]; exact Bool.false_ne_true), hfails]

end

/-! ### The least offsets -/

section

variable {S S' : Int64 → Prop} {o o' : Option Int64}

lemma Least.congr (h : Least S o) (hS : ∀ x, S x ↔ S' x) : Least S' o := by
  have heq : S = S' := funext fun x => propext (hS x)
  rwa [← heq]

lemma Least.unique (h : Least S o) (h' : Least S o') : o = o' := by
  cases o with
  | none =>
    cases o' with
    | none => rfl
    | some x => exact absurd h'.1 (h x)
  | some x =>
    cases o' with
    | none => exact absurd h.1 (h' x)
    | some x' => exact congrArg some (Std.le_antisymm (h.2 x' h'.1) (h'.2 x h.1))

variable {getMinOffsetInQuque : Int32 → Int64} {acc : Table Int32 Int64} {queueId : Int32}

lemma lookup_minOne_ne {e : Sigma fun _ : Int32 => Int64} (h : queueId ≠ e.1) :
    (minOne getMinOffsetInQuque acc e).lookup queueId = acc.lookup queueId := by
  rw [ConsumerOffsetManager.minOne]
  split_ifs
  · exact AList.lookup_insert_ne h
  · rfl

/-- One entry is taken into account. -/
lemma Least.one (h : Least S (acc.lookup queueId)) (e : Sigma fun _ : Int32 => Int64) :
    Least (fun x => S x ∨ queueId = e.1 ∧ e.2 = x ∧ getMinOffsetInQuque queueId ≤ x)
      ((minOne getMinOffsetInQuque acc e).lookup queueId) := by
  by_cases hq : queueId = e.1
  · subst hq
    rw [ConsumerOffsetManager.minOne]
    by_cases hmin : getMinOffsetInQuque e.1 ≤ e.2
    · rw [if_pos hmin, lookup_insert_ite, if_pos rfl]
      cases hacc : acc.lookup e.1 with
      | none =>
        rw [hacc] at h
        have hmax : min Int64.maxValue e.2 = e.2 := by
          rcases Std.min_eq_or (a := Int64.maxValue) (b := e.2) with heq | heq
          · have hle : Int64.maxValue ≤ e.2 := heq ▸ Std.min_le_right
            have hge : e.2 ≤ Int64.maxValue := Int64.le_iff_toInt_le.mpr e.2.toInt_le
            rw [heq]
            exact Std.le_antisymm hle hge
          · exact heq
        dsimp only
        rw [hmax]
        refine ⟨.inr ⟨rfl, rfl, hmin⟩, ?_⟩
        rintro x (hx | ⟨-, rfl, -⟩)
        · exact absurd hx (h x)
        · exact Std.le_refl _
      | some offset =>
        rw [hacc] at h
        dsimp only
        refine ⟨?_, ?_⟩
        · rcases Std.min_eq_or (a := e.2) (b := offset) with heq | heq
          · rw [heq]
            exact .inr ⟨rfl, rfl, hmin⟩
          · rw [heq]
            exact .inl h.1
        · rintro x (hx | ⟨-, rfl, -⟩)
          · exact Std.le_trans Std.min_le_right (h.2 x hx)
          · exact Std.min_le_left
    · rw [if_neg hmin]
      refine h.congr fun x => (or_iff_left ?_).symm
      rintro ⟨-, rfl, hx⟩
      exact hmin hx
  · rw [lookup_minOne_ne hq]
    exact h.congr fun x => (or_iff_left fun hx => hq hx.1).symm

/-- The entries of one map. -/
lemma Least.entries (h : Least S (acc.lookup queueId))
    (l : List (Sigma fun _ : Int32 => Int64)) :
    Least (fun x => S x ∨ ⟨queueId, x⟩ ∈ l ∧ getMinOffsetInQuque queueId ≤ x)
      ((l.foldl (minOne getMinOffsetInQuque) acc).lookup queueId) := by
  induction l generalizing acc S with
  | nil => exact h.congr fun x => (or_iff_left fun hx => List.not_mem_nil hx.1).symm
  | cons e l ih =>
    rw [List.foldl_cons]
    refine (ih (h.one e)).congr fun x => ?_
    rw [or_assoc, List.mem_cons]
    refine or_congr_right ?_
    obtain ⟨q, v⟩ := e
    simp only [Sigma.mk.injEq, heq_eq_eq, eq_comm (a := x)]
    tauto

variable {m : ConsumerOffsetManager} {topic : Text} {keys : List Text}

/-- All keys of the topic. -/
lemma minOffsets_spec (hkeys : ∀ key ∈ keys, (split TOPIC_GROUP_SEPARATOR key)[0]? ≠ none) :
    ∃ r, minOffsets topic getMinOffsetInQuque m keys acc = some r ∧
      ∀ queueId S, Least S (acc.lookup queueId) → Least (fun x => S x ∨ ∃ key ∈ keys,
        (split TOPIC_GROUP_SEPARATOR key)[0]? = some topic ∧ m.find key queueId = some x ∧
          getMinOffsetInQuque queueId ≤ x) (r.lookup queueId) := by
  induction keys generalizing acc with
  | nil =>
    exact ⟨acc, rfl, fun _ S h => h.congr fun x =>
      (or_iff_left fun ⟨_, hx, _⟩ => List.not_mem_nil hx).symm⟩
  | cons key keys ih =>
    obtain ⟨t, ht⟩ := Option.ne_none_iff_exists'.mp (hkeys key List.mem_cons_self)
    obtain ⟨r, hr, hleast⟩ := @ih (if topic = t then
      (((m.offsetTable.lookup key).bind (m.maps[·]?)).getD ∅).entries.foldl
        (minOne getMinOffsetInQuque) acc else acc) fun k hk => hkeys k (List.mem_cons_of_mem _ hk)
    refine ⟨r, ?_, fun queueId S h => ?_⟩
    · rw [minOffsets, ht]
      exact hr
    · have hone : Least (fun x => S x ∨ topic = t ∧ m.find key queueId = some x ∧
          getMinOffsetInQuque queueId ≤ x) ((if topic = t then
            (((m.offsetTable.lookup key).bind (m.maps[·]?)).getD ∅).entries.foldl
              (minOne getMinOffsetInQuque) acc else acc).lookup queueId) := by
        by_cases heq : topic = t
        · rw [if_pos heq]
          refine (h.entries _).congr fun x => ?_
          rw [mem_entries_iff, ConsumerOffsetManager.find]
          cases m.offsetTable.lookup key with
          | none => simp
          | some map =>
            rw [Option.bind_some, Option.bind_some]
            cases m.maps[map]? with
            | none => simp
            | some offsets => simp [heq]
        · rw [if_neg heq]
          exact h.congr fun x => (or_iff_left fun hx => heq hx.1).symm
      refine (hleast queueId _ hone).congr fun x => ?_
      simp only [List.exists_mem_cons_iff, ht, Option.some.injEq, or_assoc, eq_comm (a := t)]

lemma minOffsets_fails (h : ∃ key ∈ keys, (split TOPIC_GROUP_SEPARATOR key)[0]? = none) :
    minOffsets topic getMinOffsetInQuque m keys acc = none := by
  induction keys generalizing acc with
  | nil => exact absurd h (by simp)
  | cons key keys ih =>
    rw [minOffsets]
    cases ht : (split TOPIC_GROUP_SEPARATOR key)[0]? with
    | none => rfl
    | some t =>
      obtain ⟨key', hmem, hnone⟩ := h
      rcases List.mem_cons.mp hmem with rfl | hmem
      · rw [ht] at hnone
        cases hnone
      · exact ih ⟨key', hmem, hnone⟩

/-- The keys that are refused. -/
lemma second_eq_none {topic group : Name} :
    (split TOPIC_GROUP_SEPARATOR (topic.key group))[1]? = none ↔ group.text = [] := by
  rw [split_key]
  by_cases hgroup : group.text = []
  · rw [if_neg (not_not.mpr hgroup)]
    split_ifs <;> exact iff_of_true rfl hgroup
  · rw [if_pos hgroup]
    exact iff_of_false (fun h => by cases h) hgroup

lemma second_eq_some {topic group : Name} {g : Text} :
    (split TOPIC_GROUP_SEPARATOR (topic.key group))[1]? = some g ↔
      group.text = g ∧ group.text ≠ [] := by
  rw [split_key]
  by_cases hgroup : group.text = []
  · rw [if_neg (not_not.mpr hgroup)]
    split_ifs <;> exact iff_of_false (fun h => by cases h) fun h => h.2 hgroup
  · rw [if_pos hgroup]
    simp [hgroup]

lemma first_eq_none {topic group : Name} :
    (split TOPIC_GROUP_SEPARATOR (topic.key group))[0]? = none ↔
      group.text = [] ∧ topic.text = [] := by
  rw [split_key]
  split_ifs with hgroup htopic
  · exact iff_of_false (fun h => by cases h) fun h => hgroup h.1
  · exact iff_of_false (fun h => by cases h) fun h => htopic h.2
  · exact iff_of_true rfl ⟨not_not.mp hgroup, not_not.mp htopic⟩

lemma first_eq_some {topic group : Name} {t : Text}
    (h : ¬(group.text = [] ∧ topic.text = [])) :
    (split TOPIC_GROUP_SEPARATOR (topic.key group))[0]? = some t ↔ topic.text = t := by
  rw [split_key]
  split_ifs with hgroup htopic
  · simp
  · simp
  · exact absurd ⟨not_not.mp hgroup, not_not.mp htopic⟩ h

end

/-! ### The comparison -/

section

variable {t : Table Int32 Int64} {l : List (Sigma fun _ : Int32 => Int64)}

lemma compare_spec (hl : l.NodupKeys) (h : ∀ e ∈ l, ∃ offset, t.lookup e.1 = some offset) :
    ∃ r, l.foldlM compareOne t = some r ∧ ∀ queueId, r.lookup queueId =
      (t.lookup queueId).map fun offset =>
        if (l.dlookup queueId).any (· < offset) then Int64.maxValue else offset := by
  induction l generalizing t with
  | nil => exact ⟨t, rfl, fun queueId => by simp⟩
  | cons e l ih =>
    obtain ⟨hnew, hl⟩ := List.nodupKeys_cons.mp hl
    obtain ⟨offset, he⟩ := h e List.mem_cons_self
    have hrest : ∀ e' ∈ l, e'.1 ≠ e.1 := fun e' he' heq =>
      hnew (heq ▸ List.mem_keys_of_mem he')
    obtain ⟨r, hr, hlook⟩ := @ih (t.insert e.1 (if offset > e.2 then Int64.maxValue else offset)) hl
      fun e' he' => by
        rw [AList.lookup_insert_ne (hrest e' he')]
        exact h e' (List.mem_cons_of_mem e he')
    refine ⟨r, ?_, fun queueId => ?_⟩
    · rw [List.foldlM_cons, compareOne, he]
      exact hr
    · rw [hlook]
      by_cases hq : queueId = e.1
      · obtain ⟨q, v⟩ := e
        subst hq
        rw [AList.lookup_insert, he, List.dlookup_eq_none.mpr hnew, List.dlookup_cons_eq]
        simp
      · rw [AList.lookup_insert_ne hq, List.dlookup_cons_ne _ _ hq]

lemma compare_fails (hl : l.NodupKeys) (h : ∃ e ∈ l, t.lookup e.1 = none) :
    l.foldlM compareOne t = none := by
  induction l generalizing t with
  | nil => exact absurd h (by simp)
  | cons e l ih =>
    obtain ⟨hnew, hl⟩ := List.nodupKeys_cons.mp hl
    rw [List.foldlM_cons, compareOne]
    cases he : t.lookup e.1 with
    | none => rfl
    | some offset =>
      obtain ⟨e', hmem, hnone⟩ := h
      rcases List.mem_cons.mp hmem with rfl | hmem
      · rw [he] at hnone
        cases hnone
      · refine ih hl ⟨e', hmem, ?_⟩
        have hne : e'.1 ≠ e.1 := fun heq => hnew (heq ▸ List.mem_keys_of_mem hmem)
        rw [AList.lookup_insert_ne hne]
        exact hnone

end

/-! ### The answer -/

section

variable {walk : List Text} {getMinOffsetInQuque : Int32 → Int64}
  {req : QueryCorrectionOffsetHeader} {m : ConsumerOffsetManager}

/-- The table that the filter leaves. -/
def filtered (walk : List Text) (req : QueryCorrectionOffsetHeader) (m : ConsumerOffsetManager) :
    ConsumerOffsetManager :=
  { m with offsetTable := (removeGroups walk (filterPieces req.filterGroups) m.offsetTable).1 }

/-- The condition on names. -/
def Named (req : QueryCorrectionOffsetHeader) (m : ConsumerOffsetManager) : Prop :=
  ∀ topic group : Name, topic.key group ∈ m.offsetTable → group.text = [] →
    filterPieces req.filterGroups = [] ∧ topic.text ≠ []

lemma filtered_spec (hkeys : Keyed m) (hnamed : Named req m) :
    (removeGroups walk (filterPieces req.filterGroups) m.offsetTable).2 = true ∧
      ∀ topic group : Name, (filtered walk req m).offsetTable.lookup (topic.key group) =
        if group.text ∈ filterPieces req.filterGroups then none
        else m.offsetTable.lookup (topic.key group) := by
  by_cases hnil : filterPieces req.filterGroups = []
  · rw [filtered, hnil]
    exact ⟨rfl, fun topic group => (if_neg List.not_mem_nil).symm⟩
  · have hgroups : ∀ topic group : Name, topic.key group ∈ m.offsetTable → group.text ≠ [] :=
      fun topic group hmem hempty => hnil (hnamed topic group hmem hempty).1
    obtain ⟨hok, hlook⟩ := @removeGroups_spec walk (filterPieces req.filterGroups) m.offsetTable
      fun key hkey => by
        obtain ⟨topic, group, rfl⟩ := hkeys key hkey
        exact fun hnone => hgroups topic group hkey (second_eq_none.mp hnone)
    refine ⟨hok, fun topic group => ?_⟩
    rw [filtered, hlook]
    by_cases hmem : topic.key group ∈ m.offsetTable
    · simp only [second_eq_some, hgroups topic group hmem, ne_eq, not_false_eq_true, and_true,
        exists_eq_right']
    · rw [AList.lookup_eq_none.mpr hmem, ite_self, ite_self]

lemma find_filtered (hkeys : Keyed m) (hnamed : Named req m) (topic group : Name)
    (queueId : Int32) : (filtered walk req m).find (topic.key group) queueId =
      if group.text ∈ filterPieces req.filterGroups then none
      else m.find (topic.key group) queueId := by
  rw [ConsumerOffsetManager.find, (filtered_spec hkeys hnamed).2]
  split_ifs
  · rfl
  · rfl

lemma keyed_filtered (hkeys : Keyed m) : Keyed (filtered walk req m) :=
  fun key hkey => hkeys key (mem_of_mem_removeGroups hkey)

/-- The least offsets, of the table that the filter leaves. -/
lemma query_spec (hkeys : Keyed m) (hnamed : Named req m) :
    ∃ r, m.queryMinOffsetInAllGroup walk getMinOffsetInQuque req.topic.text req.filterGroups =
        (some r, filtered walk req m) ∧
      ∀ queueId, Least (Counted getMinOffsetInQuque req m queueId) (r.lookup queueId) := by
  have hmem : ∀ topic group : Name, topic.key group ∈ (filtered walk req m).offsetTable →
      group.text ∉ filterPieces req.filterGroups ∧ topic.key group ∈ m.offsetTable := by
    intro topic group hmem
    obtain ⟨map, hmap⟩ := mem_iff_lookup.mp hmem
    rw [(filtered_spec hkeys hnamed).2] at hmap
    split_ifs at hmap with hgroup
    exact ⟨hgroup, mem_iff_lookup.mpr ⟨map, hmap⟩⟩
  have hfull : ∀ topic group : Name, topic.key group ∈ (filtered walk req m).offsetTable →
      ¬(group.text = [] ∧ topic.text = []) :=
    fun topic group h hboth => (hnamed topic group (hmem topic group h).2 hboth.1).2 hboth.2
  obtain ⟨r, hr, hleast⟩ := @minOffsets_spec getMinOffsetInQuque ∅ (filtered walk req m)
    req.topic.text (order walk (filtered walk req m).offsetTable) fun key hkey => by
      obtain ⟨topic, group, rfl⟩ := keyed_filtered hkeys key (mem_order.mp hkey)
      exact fun hnone => hfull topic group (mem_order.mp hkey) (first_eq_none.mp hnone)
  refine ⟨r, ?_, fun queueId => ?_⟩
  · rw [queryMinOffsetInAllGroup, if_pos (filtered_spec hkeys hnamed).1]
    exact congrArg (·, filtered walk req m) hr
  · have hempty : Least (fun _ => False) ((∅ : Table Int32 Int64).lookup queueId) := fun _ h => h
    refine (hleast queueId _ hempty).congr fun x => ?_
    rw [false_or]
    constructor
    · rintro ⟨key, hkey, hfirst, hfind, hmin⟩
      rw [mem_order] at hkey
      obtain ⟨topic, group, rfl⟩ := keyed_filtered hkeys key hkey
      obtain rfl : topic = req.topic := by
        have htext := (first_eq_some (hfull topic group hkey)).mp hfirst
        cases topic
        cases hreq : req.topic
        simp_all
      rw [find_filtered hkeys hnamed, if_neg (hmem _ _ hkey).1] at hfind
      exact ⟨group, (hmem _ _ hkey).1, hfind, hmin⟩
    · rintro ⟨group, hgroup, hfind, hmin⟩
      have hfind' : (filtered walk req m).find (req.topic.key group) queueId = some x := by
        rw [find_filtered hkeys hnamed, if_neg hgroup, hfind]
      have hkey : req.topic.key group ∈ (filtered walk req m).offsetTable := by
        obtain ⟨map, hmap, -⟩ := Option.bind_eq_some_iff.mp hfind'
        exact mem_iff_lookup.mpr ⟨map, hmap⟩
      exact ⟨_, mem_order.mpr hkey, (first_eq_some (hfull _ _ hkey)).mpr rfl, hfind', hmin⟩

lemma query_fails (h : ¬Named req m) :
    (m.queryMinOffsetInAllGroup walk getMinOffsetInQuque req.topic.text req.filterGroups).1 =
      none := by
  simp only [Named, not_forall] at h
  obtain ⟨topic, group, hmem, hgroup, hbad⟩ := h
  rw [queryMinOffsetInAllGroup]
  by_cases hnil : filterPieces req.filterGroups = []
  · have htopic : topic.text = [] := by
      by_contra hne
      exact hbad ⟨hnil, hne⟩
    rw [hnil]
    exact minOffsets_fails ⟨_, mem_order.mpr hmem, first_eq_none.mpr ⟨hgroup, htopic⟩⟩
  · have hfails := @removeGroups_fails walk _ m.offsetTable hnil
      ⟨_, hmem, second_eq_none.mpr hgroup⟩
    exact if_neg (by rw [hfails]; exact Bool.false_ne_true)

/-- What is compared with. -/
lemma compared_iff (hkeys : Keyed m) (hnamed : Named req m) (queueId : Int32) (offset : Int64) :
    (queryOffsets (filtered walk req m) req.topic.text req.compareGroup.text).bind
      (·.lookup queueId) = some offset ↔ Compared req m queueId offset := by
  have hfind : (queryOffsets (filtered walk req m) req.topic.text
      req.compareGroup.text).bind (·.lookup queueId) =
        (filtered walk req m).find (req.compareGroup.key req.topic) queueId :=
    Option.bind_assoc _ _ _
  rw [hfind, find_filtered hkeys hnamed, Compared]
  split_ifs with hmem
  · exact iff_of_false (fun h => by cases h) fun h => h.1 hmem
  · exact (and_iff_right hmem).symm

/-- The answer, where the map that is compared with has no queue of its own. -/
lemma correction_spec (hkeys : Keyed m) (hnamed : Named req m)
    (hcounted : ∀ queueId offset, Compared req m queueId offset →
      ∃ offset', Counted getMinOffsetInQuque req m queueId offset') :
    ∃ answer, (queryCorrectionOffset walk getMinOffsetInQuque req m).1 = some answer ∧
      ∀ queueId least, Least (Counted getMinOffsetInQuque req m queueId) least →
        match least with
        | none => answer.lookup queueId = none
        | some offset =>
          ((∃ offset', Compared req m queueId offset' ∧ offset' < offset) →
            answer.lookup queueId = some Int64.maxValue) ∧
          (¬(∃ offset', Compared req m queueId offset' ∧ offset' < offset) →
            answer.lookup queueId = some offset) := by
  obtain ⟨r, hr, hleast⟩ := @query_spec walk getMinOffsetInQuque req m hkeys hnamed
  have hcompared := @compared_iff walk req m hkeys hnamed
  rw [queryCorrectionOffset, hr]
  dsimp only
  rw [Option.bind_some]
  cases hmap : queryOffsets (filtered walk req m) req.topic.text req.compareGroup.text with
  | none =>
    simp only [hmap, Option.bind_none, reduceCtorEq, false_iff] at hcompared
    refine ⟨r, rfl, fun queueId least h => ?_⟩
    rw [← (hleast queueId).unique h]
    cases hlook : r.lookup queueId with
    | none => rfl
    | some offset => exact ⟨fun ⟨_, hmem, _⟩ => absurd hmem (hcompared _ _), fun _ => rfl⟩
  | some compareOffset =>
    simp only [hmap, Option.bind_some] at hcompared
    obtain ⟨answer, hanswer, hlook⟩ := compare_spec (t := r) compareOffset.nodupKeys fun e he => by
      obtain ⟨offset', hcounted'⟩ := hcounted e.1 e.2
        ((hcompared _ _).mp (mem_entries_iff.mp he))
      have hqueue := hleast e.1
      cases hr : r.lookup e.1 with
      | none =>
        rw [hr] at hqueue
        exact absurd hcounted' (hqueue offset')
      | some offset => exact ⟨offset, rfl⟩
    refine ⟨answer, hanswer, fun queueId least h => ?_⟩
    have hbelow : ∀ offset, (List.dlookup queueId compareOffset.entries).any (· < offset) ↔
        ∃ offset', Compared req m queueId offset' ∧ offset' < offset := by
      intro offset
      simp only [← hcompared, Option.any_eq_true, decide_eq_true_eq]
      rfl
    rw [hlook, ← (hleast queueId).unique h]
    cases hlook : r.lookup queueId with
    | none => rfl
    | some offset =>
      simp only [Option.map_some]
      exact ⟨fun h => by rw [if_pos ((hbelow offset).mpr h)],
        fun h => by rw [if_neg fun hany => h ((hbelow offset).mp hany)]⟩

lemma correction_fails (hkeys : Keyed m) (hnamed : Named req m)
    (h : ∃ queueId offset, Compared req m queueId offset ∧
      ∀ offset', ¬Counted getMinOffsetInQuque req m queueId offset') :
    (queryCorrectionOffset walk getMinOffsetInQuque req m).1 = none := by
  obtain ⟨r, hr, hleast⟩ := @query_spec walk getMinOffsetInQuque req m hkeys hnamed
  obtain ⟨queueId, offset, hcompared, hnone⟩ := h
  rw [← @compared_iff walk req m hkeys hnamed, Option.bind_eq_some_iff] at hcompared
  obtain ⟨compareOffset, hmap, hlookup⟩ := hcompared
  rw [queryCorrectionOffset, hr]
  dsimp only
  rw [Option.bind_some, hmap]
  refine compare_fails compareOffset.nodupKeys ⟨_, mem_entries_iff.mpr hlookup, ?_⟩
  exact (hleast queueId).unique hnone

/-- **Correction offsets.** -/
theorem corrected_iff (hkeys : Keyed m) :
    (∃ answer, (queryCorrectionOffset walk getMinOffsetInQuque req m).1 = some answer ∧
      Corrected getMinOffsetInQuque req m answer) ↔ Correctable getMinOffsetInQuque req m := by
  constructor
  · rintro ⟨answer, hanswer, hcorrected⟩
    have hnamed : Named req m := by
      by_contra hnot
      rw [queryCorrectionOffset, Option.bind_eq_some_iff] at hanswer
      obtain ⟨r, hr, -⟩ := hanswer
      rw [query_fails hnot] at hr
      cases hr
    have hcounted : ∀ queueId offset, Compared req m queueId offset →
        ∃ offset', Counted getMinOffsetInQuque req m queueId offset' := by
      intro queueId offset hcompared
      by_contra hnot
      rw [correction_fails hkeys hnamed ⟨queueId, offset, hcompared, not_exists.mp hnot⟩] at hanswer
      cases hanswer
    refine ⟨hnamed, hcounted, fun queueId offset hleast hmax => ?_⟩
    obtain ⟨answer', hanswer', hspec⟩ := @correction_spec walk _ _ _ hkeys hnamed hcounted
    cases hanswer.symm.trans hanswer'
    obtain ⟨hbelow, hnot⟩ := hspec queueId _ hleast
    obtain ⟨hbehind, hahead⟩ := hcorrected queueId _ hleast
    constructor
    · intro h
      by_contra hn
      exact hmax (Option.some.inj ((hahead hn).symm.trans (hbelow h)))
    · intro h
      by_contra hn
      exact hmax (Option.some.inj ((hnot hn).symm.trans (hbehind h)))
  · rintro ⟨hnamed, hcounted, hbehind⟩
    obtain ⟨answer, hanswer, hspec⟩ := @correction_spec walk _ _ _ hkeys hnamed hcounted
    refine ⟨answer, hanswer, fun queueId least hleast => ?_⟩
    have hspec := hspec queueId least hleast
    cases least with
    | none => exact hspec
    | some offset =>
      by_cases hmax : offset = Int64.maxValue
      · have hlookup : answer.lookup queueId = some Int64.maxValue := by
          by_cases h : ∃ offset', Compared req m queueId offset' ∧ offset' < offset
          · exact hspec.1 h
          · rw [hspec.2 h, hmax]
        exact ⟨fun _ => hlookup, fun _ => hlookup.trans (congrArg some hmax.symm)⟩
      · have hiff := hbehind queueId offset hleast hmax
        exact ⟨fun h => hspec.1 (hiff.mpr h), fun h => hspec.2 fun hbelow => h (hiff.mp hbelow)⟩

end

/-- Group `b` is behind group `a`. -/
def behind : ConsumerOffsetManager := committed.commitOffset groupB.text topicT.text 0 3

/-- Group `a` is asked for, in comparison with group `b`. -/
def compareWithB : QueryCorrectionOffsetHeader := ⟨none, groupB, topicT⟩

lemma mem_behind {key : Text} (h : key ∈ behind.offsetTable) :
    key = topicT.key groupB ∨ key = topicT.key groupA := by
  rcases (AList.mem_insert _).mp h with heq | hmem
  · exact .inl heq
  · exact .inr ((AList.mem_insert _).mp hmem |>.resolve_right (by simp))

lemma keyed_behind : Keyed behind := by
  intro key hkey
  rcases mem_behind hkey with rfl | rfl
  · exact ⟨topicT, groupB, rfl⟩
  · exact ⟨topicT, groupA, rfl⟩

lemma named_behind : Named compareWithB behind := by
  intro topic group hkey hempty
  rcases mem_behind hkey with heq | heq
  · obtain ⟨-, rfl⟩ := key_inj.mp heq
    cases hempty
  · obtain ⟨-, rfl⟩ := key_inj.mp heq
    cases hempty

theorem corrected_behind : (∃ answer, (queryCorrectionOffset [] (fun _ => 0) compareWithB
    behind).1 = some answer ∧ Corrected (fun _ => 0) compareWithB behind answer) ↔
      Correctable (fun _ => 0) compareWithB behind :=
  corrected_iff keyed_behind

/-- Group `b` is behind the store too, so that group `a` is the least. -/
theorem corrected_swapped : ¬ ∀ walk getMinOffsetInQuque req m, Keyed m →
    ∃ answer, (queryCorrectionOffset walk getMinOffsetInQuque req m).1 = some answer ∧
      Corrected getMinOffsetInQuque req m answer := by
  intro h
  obtain ⟨answer, hanswer, hcorrected⟩ := h [] (fun _ => 4) compareWithB behind keyed_behind
  obtain ⟨r, hr, hleast⟩ := @query_spec [] (fun _ => 4) compareWithB behind keyed_behind
    named_behind
  have hquery : (behind.queryMinOffsetInAllGroup [] (fun _ => 4) topicT.text none).1.bind
      (·.lookup 0) = some 5 := by decide
  have hlook : ((queryCorrectionOffset [] (fun _ => 4) compareWithB behind).1).bind
      (·.lookup 0) = some 5 := by decide
  have hr0 : r.lookup 0 = some 5 := by
    rw [show behind.queryMinOffsetInAllGroup [] (fun _ => 4) topicT.text none = _ from hr] at hquery
    exact hquery
  have hleast0 := hleast 0
  rw [hr0] at hleast0
  rw [hanswer] at hlook
  have hmax := (hcorrected 0 _ hleast0).1 ⟨3, by decide, by decide⟩
  exact absurd (Option.some.inj (hlook.symm.trans hmax)) (by decide)

end CloudMQ.CorrectionOffsets
