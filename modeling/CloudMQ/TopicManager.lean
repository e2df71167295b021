import CloudMQ.Topics

/-!
`TopicConfigManager`, the topics of one broker.

Configurations are objects: the table holds references to them, some operations put a new object,
others change one where it is, and whoever holds a reference sees the change. Every operation that
changes something ends with a new version and a write of the table to its file; here stand the
changes, and what is read of the table.
-/

namespace CloudMQ.TopicManager

open CloudMQ.Utf8 CloudMQ.Tables CloudMQ.Topics

/-- The table of a broker's topics, with the objects it refers to. -/
structure TopicConfigManager where
  heap : ℕ → TopicConfig
  next : ℕ
  topicConfigTable : Table Text ℕ
  dataVersion : DataVersion

/-- The configurations a table of references stands for. -/
def deref (heap : ℕ → TopicConfig) (refs : Table Text ℕ) : TopicConfigTable :=
  mapMaybe (fun _ r => some (heap r)) refs

namespace TopicConfigManager

/-- The table as it is read. -/
def configs (m : TopicConfigManager) : TopicConfigTable := deref m.heap m.topicConfigTable

def selectTopicConfig (m : TopicConfigManager) (topic : Text) : Option TopicConfig :=
  (m.topicConfigTable.lookup topic).map m.heap

/-- A new object is put under the name. -/
def put (topic : Text) (c : TopicConfig) (m : TopicConfigManager) : TopicConfigManager :=
  { m with
    heap := Function.update m.heap m.next c
    next := m.next + 1
    topicConfigTable := m.topicConfigTable.insert topic m.next }

/-- An object is changed where it is and put under its name again. -/
def revise (topic : Text) (r : ℕ) (f : TopicConfig → TopicConfig) (m : TopicConfigManager) :
    TopicConfigManager :=
  { m with
    heap := Function.update m.heap r (f (m.heap r))
    topicConfigTable := m.topicConfigTable.insert topic r }

end TopicConfigManager

open TopicConfigManager

/-! ### The operations -/

def FLAG_UNIT : Int32 := 1
def FLAG_UNIT_SUB : Int32 := 2

def createTopicInSendMessageMethod (autoCreateTopicEnable : Bool) (topic defaultTopic : Text)
    (clientDefaultTopicQueueNums topicSysFlag : Int32) (m : TopicConfigManager) :
    Option TopicConfigManager :=
  match m.selectTopicConfig topic with
  | some _ => none
  | none =>
    if autoCreateTopicEnable then
      match m.selectTopicConfig defaultTopic with
      | none => none
      | some d =>
        if isInherited d.perm then
          let nums := if clientDefaultTopicQueueNums > d.writeQueueNums then d.writeQueueNums
            else clientDefaultTopicQueueNums
          let queueNums := if nums < 0 then 0 else nums
          some (m.put topic
            { readQueueNums := queueNums
              writeQueueNums := queueNums
              perm := d.perm &&& ~~~PERM_INHERIT
              topicSysFlag := topicSysFlag
              topicFilterType := d.topicFilterType })
        else none
    else none

def createTopicInSendMessageBackMethod (topic : Text) (clientDefaultTopicQueueNums perm : Int32)
    (topicSysFlag : Int32) (m : TopicConfigManager) : Option TopicConfigManager :=
  match m.selectTopicConfig topic with
  | some _ => none
  | none => some (m.put topic
      { readQueueNums := clientDefaultTopicQueueNums
        writeQueueNums := clientDefaultTopicQueueNums
        perm := perm
        topicSysFlag := topicSysFlag })

def updateTopicUnitFlag (topic : Text) (unit : Bool) (m : TopicConfigManager) :
    Option TopicConfigManager :=
  (m.topicConfigTable.lookup topic).map fun r => m.revise topic r fun c =>
    { c with topicSysFlag :=
        if unit then c.topicSysFlag ||| FLAG_UNIT else c.topicSysFlag &&& ~~~FLAG_UNIT }

def updateTopicUnitSubFlag (topic : Text) (hasUnitSub : Bool) (m : TopicConfigManager) :
    Option TopicConfigManager :=
  (m.topicConfigTable.lookup topic).map fun r => m.revise topic r fun c =>
    { c with topicSysFlag :=
        if hasUnitSub then c.topicSysFlag ||| FLAG_UNIT_SUB else c.topicSysFlag }

def updateTopicConfig (topic : Text) (c : TopicConfig) (m : TopicConfigManager) :
    Option TopicConfigManager :=
  some (m.put topic c)

/-- The order flag of an object that is in the table. -/
def setOrder (orderTopics : List Text) (refs : Table Text ℕ) (heap : ℕ → TopicConfig) (r : ℕ) :
    TopicConfig :=
  match refs.entries.find? fun e => e.2 = r with
  | none => heap r
  | some e => { heap r with order := e.1 ∈ orderTopics }

/-- The topics a name server lists as ordered; nothing is done if it does not say. -/
def updateOrderTopicConfig (orderTopics : Option (List Text)) (m : TopicConfigManager) :
    Option TopicConfigManager :=
  orderTopics.bind fun topics =>
    if m.topicConfigTable.entries.any fun e => (m.heap e.2).order != decide (e.1 ∈ topics) then
      some { m with heap := setOrder topics m.topicConfigTable m.heap }
    else none

def deleteTopicConfig (topic : Text) (m : TopicConfigManager) : Option TopicConfigManager :=
  (m.topicConfigTable.lookup topic).map fun _ =>
    { m with topicConfigTable := m.topicConfigTable.erase topic }

inductive Change
  | createTopicInSendMessageMethod (autoCreateTopicEnable : Bool) (topic defaultTopic : Text)
      (clientDefaultTopicQueueNums topicSysFlag : Int32)
  | createTopicInSendMessageBackMethod (topic : Text)
      (clientDefaultTopicQueueNums perm topicSysFlag : Int32)
  | updateTopicUnitFlag (topic : Text) (unit : Bool)
  | updateTopicUnitSubFlag (topic : Text) (hasUnitSub : Bool)
  | updateTopicConfig (topic : Text) (c : TopicConfig)
  | updateOrderTopicConfig (orderTopics : Option (List Text))
  | deleteTopicConfig (topic : Text)

/-- What an operation does to the table; `none` if it has nothing to change. -/
def change (m : TopicConfigManager) : Change → Option TopicConfigManager
  | .createTopicInSendMessageMethod auto topic defaultTopic nums flag =>
    createTopicInSendMessageMethod auto topic defaultTopic nums flag m
  | .createTopicInSendMessageBackMethod topic nums perm flag =>
    createTopicInSendMessageBackMethod topic nums perm flag m
  | .updateTopicUnitFlag topic unit => updateTopicUnitFlag topic unit m
  | .updateTopicUnitSubFlag topic hasUnitSub => updateTopicUnitSubFlag topic hasUnitSub m
  | .updateTopicConfig topic c => updateTopicConfig topic c m
  | .updateOrderTopicConfig orderTopics => updateOrderTopicConfig orderTopics m
  | .deleteTopicConfig topic => deleteTopicConfig topic m

/-! ### Registration with a restricted broker -/

/-- `setPerm` on every object of the table. -/
def setPerms (perm : Int32) (refs : Table Text ℕ) (heap : ℕ → TopicConfig) (r : ℕ) : TopicConfig :=
  if r ∈ refs.entries.map (·.2) then { heap r with perm := perm } else heap r

/-! ### Loading -/

/-- The table after the built-in topics have been put and those of the file over them. -/
def loaded (builtIn : TopicConfigTable) (file : Option (DataVersion × TopicConfigTable)) :
    TopicConfigTable :=
  match file with
  | none => builtIn
  | some (_, table) => table ∪ builtIn

/-- A new manager, with one object for each topic of the table. -/
def load (builtIn : TopicConfigTable) (file : Option (DataVersion × TopicConfigTable))
    (now : Int64) : TopicConfigManager :=
  (loaded builtIn file).entries.foldr (fun e m => m.put e.1 e.2)
    ⟨fun _ => {}, 0, ∅, (file.map (·.1)).getD ⟨now, 0⟩⟩

/-! ### What a change can do -/

/-- References are to objects that exist. -/
def Allocated (m : TopicConfigManager) (refs : Table Text ℕ) : Prop :=
  ∀ topic r, refs.lookup topic = some r → r < m.next

@[simp] lemma lookup_deref (heap : ℕ → TopicConfig) (refs : Table Text ℕ) (topic : Text) :
    (deref heap refs).lookup topic = (refs.lookup topic).map heap := by
  rw [deref, lookup_mapMaybe]
  cases refs.lookup topic <;> rfl

@[simp] lemma lookup_configs (m : TopicConfigManager) (topic : Text) :
    m.configs.lookup topic = m.selectTopicConfig topic := lookup_deref ..

/-- **What a change can do**: the version stays, objects keep their permission, and new
references are to objects that exist. -/
structure Changed (m m' : TopicConfigManager) : Prop where
  version : m'.dataVersion = m.dataVersion
  next : m.next ≤ m'.next
  perm : ∀ r < m.next, (m'.heap r).perm = (m.heap r).perm
  allocated : Allocated m m.topicConfigTable → Allocated m' m'.topicConfigTable

lemma changed_put (topic : Text) (c : TopicConfig) (m : TopicConfigManager) :
    Changed m (m.put topic c) where
  version := rfl
  next := Nat.le_succ _
  perm r hr := by simp [put, Function.update_of_ne (Nat.ne_of_lt hr)]
  allocated h t r hr := by
    simp only [put, lookup_insert_ite] at hr
    split_ifs at hr
    · obtain rfl := Option.some.inj hr
      exact Nat.lt_succ_self _
    · exact (h t r hr).trans (Nat.lt_succ_self _)

lemma changed_revise {topic : Text} {r : ℕ} {m : TopicConfigManager}
    (hr : m.topicConfigTable.lookup topic = some r) {f : TopicConfig → TopicConfig}
    (hf : ∀ c, (f c).perm = c.perm) : Changed m (m.revise topic r f) where
  version := rfl
  next := le_rfl
  perm r' _ := by
    by_cases h : r' = r
    · subst h
      simp [revise, hf]
    · simp [revise, h]
  allocated h t r' hr' := by
    simp only [revise, lookup_insert_ite] at hr'
    split_ifs at hr'
    · obtain rfl := Option.some.inj hr'
      exact h topic r hr
    · exact h t r' hr'

lemma perm_setOrder (topics : List Text) (refs : Table Text ℕ) (heap : ℕ → TopicConfig) (r : ℕ) :
    (setOrder topics refs heap r).perm = (heap r).perm := by
  unfold setOrder
  split <;> rfl

/-- The topic whose configuration an operation puts or removes. -/
def sets : Change → Option Text
  | .createTopicInSendMessageMethod _ topic _ _ _ => some topic
  | .createTopicInSendMessageBackMethod topic _ _ _ => some topic
  | .updateTopicConfig topic _ => some topic
  | .deleteTopicConfig topic => some topic
  | .updateTopicUnitFlag _ _ | .updateTopicUnitSubFlag _ _ | .updateOrderTopicConfig _ => none

/-- An operation puts a new object, changes one without its permission, sets the order flags, or
removes a topic. -/
lemma change_cases {m m' : TopicConfigManager} {c : Change} (h : change m c = some m') :
    (∃ topic c', sets c = some topic ∧ m' = m.put topic c') ∨
      (∃ topic r f, m.topicConfigTable.lookup topic = some r ∧ m' = m.revise topic r f ∧
        ∀ c : TopicConfig, (f c).perm = c.perm) ∨
      (∃ topics, m' = { m with heap := setOrder topics m.topicConfigTable m.heap }) ∨
      ∃ topic, sets c = some topic ∧
        m' = { m with topicConfigTable := m.topicConfigTable.erase topic } := by
  cases c with
  | createTopicInSendMessageMethod auto topic defaultTopic nums flag =>
    simp only [change, createTopicInSendMessageMethod] at h
    split at h
    · simp at h
    · split_ifs at h
      split at h
      · simp at h
      · split at h
        · exact .inl ⟨topic, _, rfl, (Option.some.inj h).symm⟩
        · simp at h
  | createTopicInSendMessageBackMethod topic nums perm flag =>
    simp only [change, createTopicInSendMessageBackMethod] at h
    split at h
    · simp at h
    · exact .inl ⟨topic, _, rfl, (Option.some.inj h).symm⟩
  | updateTopicUnitFlag topic unit =>
    obtain ⟨r, hr, rfl⟩ := Option.map_eq_some_iff.mp h
    exact .inr (.inl ⟨topic, r, _, hr, rfl, fun _ => rfl⟩)
  | updateTopicUnitSubFlag topic hasUnitSub =>
    obtain ⟨r, hr, rfl⟩ := Option.map_eq_some_iff.mp h
    exact .inr (.inl ⟨topic, r, _, hr, rfl, fun _ => rfl⟩)
  | updateTopicConfig topic c => exact .inl ⟨topic, c, rfl, (Option.some.inj h).symm⟩
  | updateOrderTopicConfig orderTopics =>
    obtain ⟨topics, -, h⟩ := Option.bind_eq_some_iff.mp h
    split_ifs at h
    exact .inr (.inr (.inl ⟨topics, (Option.some.inj h).symm⟩))
  | deleteTopicConfig topic =>
    obtain ⟨r, -, rfl⟩ := Option.map_eq_some_iff.mp h
    exact .inr (.inr (.inr ⟨topic, rfl, rfl⟩))

lemma changed_of_change {m m' : TopicConfigManager} {c : Change} (h : change m c = some m') :
    Changed m m' := by
  rcases change_cases h with ⟨topic, c', -, rfl⟩ | ⟨topic, r, f, hr, rfl, hf⟩ | ⟨topics, rfl⟩ |
    ⟨topic, -, rfl⟩
  · exact changed_put topic c' m
  · exact changed_revise hr hf
  · exact ⟨rfl, le_rfl, fun r _ => perm_setOrder .., id⟩
  · refine ⟨rfl, le_rfl, fun _ _ => rfl, fun h t r hr => ?_⟩
    simp only [lookup_erase_ite] at hr
    split_ifs at hr
    exact h t r hr

/-! ### What is loaded -/

lemma allocated_foldr (l : List (Sigma fun _ : Text => TopicConfig)) (m : TopicConfigManager)
    (h : Allocated m m.topicConfigTable) :
    Allocated (l.foldr (fun e m => m.put e.1 e.2) m)
      (l.foldr (fun e m => m.put e.1 e.2) m).topicConfigTable := by
  induction l with
  | nil => exact h
  | cons e l ih => exact (changed_put e.1 e.2 _).allocated ih

lemma allocated_load (builtIn : TopicConfigTable)
    (file : Option (DataVersion × TopicConfigTable)) (now : Int64) :
    Allocated (load builtIn file now) (load builtIn file now).topicConfigTable :=
  allocated_foldr _ _ (by simp [Allocated])

lemma dataVersion_foldr (l : List (Sigma fun _ : Text => TopicConfig)) (m : TopicConfigManager) :
    (l.foldr (fun e m => m.put e.1 e.2) m).dataVersion = m.dataVersion := by
  induction l with
  | nil => rfl
  | cons e l ih => exact ih

lemma dataVersion_load (builtIn : TopicConfigTable)
    (file : Option (DataVersion × TopicConfigTable)) (now : Int64) :
    (load builtIn file now).dataVersion = (file.map (·.1)).getD ⟨now, 0⟩ := dataVersion_foldr ..

/-- Putting a topic changes what is read under its name only. -/
lemma select_put {topic t : Text} {c : TopicConfig} {m : TopicConfigManager}
    (h : Allocated m m.topicConfigTable) :
    (m.put topic c).selectTopicConfig t = if t = topic then some c else m.selectTopicConfig t := by
  unfold selectTopicConfig
  simp only [put, lookup_insert_ite]
  split_ifs
  · simp
  · cases hr : m.topicConfigTable.lookup t with
    | none => rfl
    | some r => simp [Function.update_of_ne (Nat.ne_of_lt (h t r hr))]

lemma select_foldr (l : List (Sigma fun _ : Text => TopicConfig)) (m : TopicConfigManager)
    (h : Allocated m m.topicConfigTable) (hm : m.topicConfigTable = ∅) (t : Text) :
    (l.foldr (fun e m => m.put e.1 e.2) m).selectTopicConfig t = l.dlookup t := by
  induction l with
  | nil => simp [selectTopicConfig, hm]
  | cons e l ih =>
    rw [List.foldr_cons, select_put (allocated_foldr l m h), ih]
    split_ifs with ht
    · subst ht
      exact (List.dlookup_cons_eq l e.1 e.2).symm
    · exact (List.dlookup_cons_ne l e ht).symm

/-- What is loaded is read. -/
lemma select_load (builtIn : TopicConfigTable) (file : Option (DataVersion × TopicConfigTable))
    (now : Int64) (t : Text) :
    (load builtIn file now).selectTopicConfig t = (loaded builtIn file).lookup t :=
  select_foldr _ _ (by simp [Allocated]) rfl t

end CloudMQ.TopicManager
