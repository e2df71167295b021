import CloudMQ.Strings
import CloudMQ.Tables

/-!
The table of the offsets that consumer groups have committed.

It maps `topic@group` to a map from queues to offsets. The inner maps are objects: two keys may
refer to the same one.
-/

namespace CloudMQ.ConsumerOffsets

open CloudMQ.Utf8 CloudMQ.Strings CloudMQ.Tables

def TOPIC_GROUP_SEPARATOR : Char := '@'

/-- The key of a topic and a group. -/
def topicAtGroup (topic group : Text) : Text := topic ++ TOPIC_GROUP_SEPARATOR :: group

/-- The inner maps, by number, and the number that each key refers to. -/
structure ConsumerOffsetManager where
  offsetTable : Table Text ℕ := ∅
  maps : List (Table Int32 Int64) := []

namespace ConsumerOffsetManager

variable (m : ConsumerOffsetManager)

/-- What the map of a key holds for a queue. -/
def find (key : Text) (queueId : Int32) : Option Int64 :=
  (m.offsetTable.lookup key).bind fun map => (m.maps[map]?).bind (·.lookup queueId)

def queryOffset (group topic : Text) (queueId : Int32) : Int64 :=
  (m.find (topicAtGroup topic group) queueId).getD (-1)

/-- The second part of a commit, with what was got from the table: a new map for the key, or the
offset into the map that was there. -/
def putOffset (key : Text) (map : Option ℕ) (queueId : Int32) (offset : Int64) :
    ConsumerOffsetManager :=
  match map with
  | none =>
    { offsetTable := m.offsetTable.insert key m.maps.length
      maps := m.maps ++ [(∅ : Table Int32 Int64).insert queueId offset] }
  | some map => { m with maps := m.maps.modify map (·.insert queueId offset) }

def commitOffset (group topic : Text) (queueId : Int32) (offset : Int64) :
    ConsumerOffsetManager :=
  let key := topicAtGroup topic group
  m.putOffset key (m.offsetTable.lookup key) queueId offset

def cloneOffset (srcGroup destGroup topic : Text) : ConsumerOffsetManager :=
  match m.offsetTable.lookup (topicAtGroup topic srcGroup) with
  | some offsets =>
    { m with offsetTable := m.offsetTable.insert (topicAtGroup topic destGroup) offsets }
  | none => m

/-! ### The smallest offsets of a topic -/

/-- The pieces of a filter. -/
def filterPieces (filterGroups : Option Text) : List Text :=
  match filterGroups with
  | some filterGroups => if isBlank filterGroups then [] else split ',' filterGroups
  | none => []

/-- A walk through the keys for a group of the filter; it ends early with an exception where a key
has no second piece. -/
def removeGroup (group : Text) : List Text → Table Text ℕ → Table Text ℕ × Bool
  | [], t => (t, true)
  | key :: keys, t =>
    match (split TOPIC_GROUP_SEPARATOR key)[1]? with
    | some g => removeGroup group keys (if group = g then t.erase key else t)
    | none => (t, false)

def removeGroups (walk : List Text) : List Text → Table Text ℕ → Table Text ℕ × Bool
  | [], t => (t, true)
  | group :: groups, t =>
    let r := removeGroup group (order walk t) t
    if r.2 then removeGroups walk groups r.1 else r

/-- A queue of a group that is not behind the store. -/
def minOne (getMinOffsetInQuque : Int32 → Int64) (queueMinOffset : Table Int32 Int64)
    (entry : Sigma fun _ : Int32 => Int64) : Table Int32 Int64 :=
  if getMinOffsetInQuque entry.1 ≤ entry.2 then
    queueMinOffset.insert entry.1
      (match queueMinOffset.lookup entry.1 with
        | none => min Int64.maxValue entry.2
        | some offset => min entry.2 offset)
  else queueMinOffset

/-- The walk over the groups that are left; it fails where a key has no first piece. -/
def minOffsets (topic : Text) (getMinOffsetInQuque : Int32 → Int64) (m : ConsumerOffsetManager) :
    List Text → Table Int32 Int64 → Option (Table Int32 Int64)
  | [], queueMinOffset => some queueMinOffset
  | key :: keys, queueMinOffset =>
    match (split TOPIC_GROUP_SEPARATOR key)[0]? with
    | some t =>
      let offsets := (m.offsetTable.lookup key).bind (m.maps[·]?)
      minOffsets topic getMinOffsetInQuque m keys
        (if topic = t then
          (offsets.getD ∅).entries.foldl (minOne getMinOffsetInQuque) queueMinOffset
        else queueMinOffset)
    | none => none

/-- The groups of the filter are removed from the key set, which is a view of the table. -/
def queryMinOffsetInAllGroup (walk : List Text) (getMinOffsetInQuque : Int32 → Int64)
    (topic : Text) (filterGroups : Option Text) :
    Option (Table Int32 Int64) × ConsumerOffsetManager :=
  let r := removeGroups walk (filterPieces filterGroups) m.offsetTable
  let m := { m with offsetTable := r.1 }
  (if r.2 then minOffsets topic getMinOffsetInQuque m (order walk m.offsetTable) ∅ else none, m)

/-! ### Groups without a subscription -/

/-- No queue of a map that is not empty is ahead of the first entry in the store. -/
def offsetBehindMuchThanData (getMinOffsetInQuque : Text → Int32 → ℤ) (topic : Text)
    (table : Table Int32 Int64) : Bool :=
  !table.entries.isEmpty &&
    table.entries.all fun e => !decide (getMinOffsetInQuque topic e.1 < e.2.toInt)

/-- The entry of a key that names a topic and a group which does not subscribe to it now. -/
def isUnsubscribed (getMinOffsetInQuque : Text → Int32 → ℤ)
    (findSubscriptionData : Text → Text → Bool) (key : Text) : Bool :=
  match split TOPIC_GROUP_SEPARATOR key with
  | [topic, group] => !findSubscriptionData group topic &&
      ((m.offsetTable.lookup key).bind (m.maps[·]?)).any
        (offsetBehindMuchThanData getMinOffsetInQuque topic)
  | _ => false

def scanUnsubscribedTopic (getMinOffsetInQuque : Text → Int32 → ℤ)
    (findSubscriptionData : Text → Text → Bool) : ConsumerOffsetManager :=
  { m with
    offsetTable := mapMaybe
      (fun key map =>
        if m.isUnsubscribed getMinOffsetInQuque findSubscriptionData key then none else some map)
      m.offsetTable }

/-! ### The file -/

/-- What the file holds: the maps themselves. -/
def encode : Table Text (Table Int32 Int64) := mapMaybe (fun _ map => m.maps[map]?) m.offsetTable

/-- Every entry gets a map of its own. -/
def decodeEntry (m : ConsumerOffsetManager) (e : Sigma fun _ : Text => Table Int32 Int64) :
    ConsumerOffsetManager where
  offsetTable := m.offsetTable.insert e.1 m.maps.length
  maps := m.maps ++ [e.2]

def decode (t : Table Text (Table Int32 Int64)) : ConsumerOffsetManager :=
  t.entries.foldl decodeEntry {}

/-! ### What the operations do -/

/-- Every key refers to a map. -/
def Valid (m : ConsumerOffsetManager) : Prop :=
  ∀ key map, m.offsetTable.lookup key = some map → map < m.maps.length

variable {m}

lemma find_eq {key : Text} {map : ℕ} (h : m.offsetTable.lookup key = some map) (queueId : Int32) :
    m.find key queueId = (m.maps[map]?).bind (·.lookup queueId) := by
  rw [find, h, Option.bind_some]

/-- A new map holds the one offset. -/
lemma find_putOffset_none (hv : m.Valid) (key key' : Text) (queueId queueId' : Int32)
    (offset : Int64) :
    (m.putOffset key none queueId offset).find key' queueId' =
      if key' = key then (if queueId' = queueId then some offset else none)
      else m.find key' queueId' := by
  rw [find, putOffset, lookup_insert_ite]
  by_cases hkey : key' = key
  · rw [if_pos hkey, if_pos hkey, Option.bind_some, List.getElem?_concat_length, Option.bind_some,
      lookup_insert_ite]
    rfl
  · rw [if_neg hkey, if_neg hkey, find]
    cases hmap : m.offsetTable.lookup key' with
    | none => rfl
    | some map =>
      rw [Option.bind_some, Option.bind_some, List.getElem?_append_left (hv key' map hmap)]

/-- The offset is seen by every key that refers to the map. -/
lemma find_putOffset_some (hv : m.Valid) (key key' : Text) (map : ℕ) (queueId queueId' : Int32)
    (offset : Int64) :
    (m.putOffset key (some map) queueId offset).find key' queueId' =
      if m.offsetTable.lookup key' = some map ∧ queueId' = queueId then some offset
      else m.find key' queueId' := by
  rw [find, putOffset, find]
  cases hmap : m.offsetTable.lookup key' with
  | none => rw [if_neg (by simp)]; rfl
  | some map' =>
    have hlt := hv key' map' hmap
    simp only [Option.bind_some, List.getElem?_modify, List.getElem?_eq_getElem hlt,
      Option.map_eq_map, Option.map_some, Option.some.injEq]
    by_cases heq : map = map'
    · subst heq
      simp only [if_true, lookup_insert_ite, true_and]
    · rw [if_neg (fun h : map = map' => heq h), if_neg (fun h => heq h.1.symm)]

lemma Valid.putOffset (hv : m.Valid) {key : Text} {map : Option ℕ} {queueId : Int32}
    {offset : Int64} : (m.putOffset key map queueId offset).Valid := by
  intro key' map' h
  cases map with
  | none =>
    simp only [ConsumerOffsetManager.putOffset, lookup_insert_ite, List.length_append,
      List.length_singleton] at h ⊢
    split_ifs at h
    · cases h
      exact Nat.lt_succ_self _
    · exact Nat.lt_succ_of_lt (hv key' map' h)
  | some map =>
    simp only [ConsumerOffsetManager.putOffset, List.length_modify] at h ⊢
    exact hv key' map' h

lemma Valid.cloneOffset (hv : m.Valid) (srcGroup destGroup topic : Text) :
    (m.cloneOffset srcGroup destGroup topic).Valid := by
  intro key map h
  rw [ConsumerOffsetManager.cloneOffset] at h ⊢
  split at h <;> rename_i hsrc
  · rw [lookup_insert_ite] at h
    split_ifs at h
    · cases h
      exact hv _ _ hsrc
    · exact hv key map h
  · exact hv key map h

/-- No two keys refer to the same map. -/
def Apart (m : ConsumerOffsetManager) : Prop :=
  ∀ key key' map, m.offsetTable.lookup key = some map → m.offsetTable.lookup key' = some map →
    key = key'

lemma apart_empty : Apart {} := fun _ _ _ h => by cases h

/-- A new number belongs to the one key that it is given to. -/
lemma apart_insert {t : Table Text ℕ} {n : ℕ} (hlt : ∀ key map, t.lookup key = some map → map < n)
    (ha : ∀ key key' map, t.lookup key = some map → t.lookup key' = some map → key = key')
    (k : Text) {key key' : Text} {map : ℕ} (h : (t.insert k n).lookup key = some map)
    (h' : (t.insert k n).lookup key' = some map) : key = key' := by
  rw [lookup_insert_ite] at h h'
  split_ifs at h h' with hk hk' hk'
  · exact hk.trans hk'.symm
  · cases h
    exact absurd (hlt key' _ h') (lt_irrefl _)
  · cases h'
    exact absurd (hlt key _ h) (lt_irrefl _)
  · exact ha key key' map h h'

lemma Apart.commitOffset (ha : m.Apart) (hv : m.Valid) (group topic : Text) (queueId : Int32)
    (offset : Int64) : (m.commitOffset group topic queueId offset).Apart := by
  intro key key' map
  rw [ConsumerOffsetManager.commitOffset]
  cases m.offsetTable.lookup (topicAtGroup topic group) with
  | none => exact apart_insert hv ha _
  | some map' => exact ha key key' map

/-- A commit is found under its key, and nothing else changes. -/
lemma find_commitOffset (hv : m.Valid) (ha : m.Apart) (group topic key : Text)
    (queueId queueId' : Int32) (offset : Int64) :
    (m.commitOffset group topic queueId offset).find key queueId' =
      if key = topicAtGroup topic group ∧ queueId' = queueId then some offset
      else m.find key queueId' := by
  rw [ConsumerOffsetManager.commitOffset]
  cases hmap : m.offsetTable.lookup (topicAtGroup topic group) with
  | none =>
    rw [find_putOffset_none hv]
    by_cases hkey : key = topicAtGroup topic group
    · have hnone : m.find key queueId' = none := by
        rw [hkey, find, hmap]
        rfl
      simp only [hkey, if_true, true_and]
      rw [← hkey, hnone]
    · rw [if_neg hkey, if_neg fun h => hkey h.1]
  | some map =>
    rw [find_putOffset_some hv]
    have hiff : m.offsetTable.lookup key = some map ↔ key = topicAtGroup topic group :=
      ⟨fun h => ha _ _ _ h hmap, fun h => h ▸ hmap⟩
    simp only [hiff]

lemma Apart.scanUnsubscribedTopic (ha : m.Apart) (getMinOffsetInQuque : Text → Int32 → ℤ)
    (findSubscriptionData : Text → Text → Bool) :
    (m.scanUnsubscribedTopic getMinOffsetInQuque findSubscriptionData).Apart := by
  have hsub : ∀ key map, (m.scanUnsubscribedTopic getMinOffsetInQuque
      findSubscriptionData).offsetTable.lookup key = some map →
        m.offsetTable.lookup key = some map := by
    intro key map h
    rw [ConsumerOffsetManager.scanUnsubscribedTopic, lookup_mapMaybe, Option.bind_eq_some_iff] at h
    obtain ⟨map', hmap, h⟩ := h
    split_ifs at h
    cases h
    exact hmap
  exact fun key key' map h h' => ha key key' map (hsub key map h) (hsub key' map h')

lemma Valid.scanUnsubscribedTopic (hv : m.Valid) (getMinOffsetInQuque : Text → Int32 → ℤ)
    (findSubscriptionData : Text → Text → Bool) :
    (m.scanUnsubscribedTopic getMinOffsetInQuque findSubscriptionData).Valid := by
  intro key map h
  rw [ConsumerOffsetManager.scanUnsubscribedTopic, lookup_mapMaybe, Option.bind_eq_some_iff] at h
  obtain ⟨map', hmap, h⟩ := h
  split_ifs at h
  cases h
  exact hv key map hmap

lemma find_scanUnsubscribedTopic {getMinOffsetInQuque : Text → Int32 → ℤ}
    {findSubscriptionData : Text → Text → Bool} {key : Text} (queueId : Int32)
    (h : m.isUnsubscribed getMinOffsetInQuque findSubscriptionData key = false) :
    (m.scanUnsubscribedTopic getMinOffsetInQuque findSubscriptionData).find key queueId =
      m.find key queueId := by
  rw [find, scanUnsubscribedTopic, lookup_mapMaybe, h]
  simp only [Bool.false_eq_true, if_false, Option.bind_fun_some]
  rw [find]

/-- What a table has for a queue of a key. -/
def stored (t : Table Text (Table Int32 Int64)) (key : Text) (queueId : Int32) : Option Int64 :=
  (t.lookup key).bind (·.lookup queueId)

/-- An entry of the file is found in its new map, the others as before. -/
lemma find_decodeEntry (hv : m.Valid) (e : Sigma fun _ : Text => Table Int32 Int64) (key : Text)
    (queueId : Int32) : (decodeEntry m e).find key queueId =
      if key = e.1 then e.2.lookup queueId else m.find key queueId := by
  rw [find, decodeEntry, lookup_insert_ite]
  split_ifs with hkey
  · rw [Option.bind_some, List.getElem?_concat_length, Option.bind_some]
  · rw [find]
    cases hmap : m.offsetTable.lookup key with
    | none => rfl
    | some map =>
      rw [Option.bind_some, Option.bind_some, List.getElem?_append_left (hv key map hmap)]

lemma Valid.decodeEntry (hv : m.Valid) (e : Sigma fun _ : Text => Table Int32 Int64) :
    (decodeEntry m e).Valid := by
  intro key map h
  simp only [ConsumerOffsetManager.decodeEntry, lookup_insert_ite, List.length_append,
    List.length_singleton] at h ⊢
  split_ifs at h
  · cases h
    exact Nat.lt_succ_self _
  · exact Nat.lt_succ_of_lt (hv key map h)

lemma Apart.decodeEntry (ha : m.Apart) (hv : m.Valid)
    (e : Sigma fun _ : Text => Table Int32 Int64) :
    (decodeEntry m e).Apart := fun _ _ _ => apart_insert hv ha e.1

lemma decode_fold {l : List (Sigma fun _ : Text => Table Int32 Int64)} (hl : l.NodupKeys)
    (hv : m.Valid) (ha : m.Apart) (key : Text) (queueId : Int32) :
    (l.foldl decodeEntry m).Valid ∧ (l.foldl decodeEntry m).Apart ∧
      (l.foldl decodeEntry m).find key queueId =
        match l.dlookup key with
        | some map => map.lookup queueId
        | none => m.find key queueId := by
  induction l generalizing m with
  | nil => exact ⟨hv, ha, rfl⟩
  | cons e l ih =>
    obtain ⟨hnew, hl⟩ := List.nodupKeys_cons.mp hl
    obtain ⟨hvalid, hapart, hfind⟩ := ih hl (hv.decodeEntry e) (ha.decodeEntry hv e)
    refine ⟨hvalid, hapart, ?_⟩
    rw [List.foldl_cons, hfind, find_decodeEntry hv]
    by_cases hkey : key = e.1
    · subst hkey
      rw [List.dlookup_eq_none.mpr hnew, if_pos rfl, List.dlookup_cons_eq]
    · rw [if_neg hkey, List.dlookup_cons_ne _ _ hkey]

lemma valid_empty : Valid {} := fun _ _ h => by cases h

lemma valid_decode (t : Table Text (Table Int32 Int64)) : (decode t).Valid :=
  (decode_fold t.nodupKeys valid_empty apart_empty [] 0).1

lemma apart_decode (t : Table Text (Table Int32 Int64)) : (decode t).Apart :=
  (decode_fold t.nodupKeys valid_empty apart_empty [] 0).2.1

/-- What is read from the file is what it holds. -/
lemma find_decode (t : Table Text (Table Int32 Int64)) (key : Text) (queueId : Int32) :
    (decode t).find key queueId = stored t key queueId := by
  rw [decode, (decode_fold t.nodupKeys valid_empty apart_empty key queueId).2.2, stored]
  change _ = (List.dlookup key t.entries).bind _
  cases List.dlookup key t.entries <;> rfl

end ConsumerOffsetManager

end CloudMQ.ConsumerOffsets
