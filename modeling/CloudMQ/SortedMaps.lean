import Mathlib.Data.List.Pairwise
import Mathlib.Tactic

/-!
Maps that are walked in the order of their keys.

The entries are kept in a list whose keys ascend, so that the first and the last key are its ends.
-/

namespace CloudMQ.SortedMaps

variable {K V : Type} [LinearOrder K]

/-- A sorted map. -/
@[ext] structure TreeMap (K V : Type) [LinearOrder K] where
  entries : List (K × V)
  ascending : entries.Pairwise fun e e' => e.1 < e'.1

namespace TreeMap

instance : EmptyCollection (TreeMap K V) := ⟨⟨[], List.Pairwise.nil⟩⟩

def keys (m : TreeMap K V) : List K := m.entries.map Prod.fst

instance : Membership K (TreeMap K V) := ⟨fun m k => k ∈ m.keys⟩

instance (m : TreeMap K V) (k : K) : Decidable (k ∈ m) :=
  inferInstanceAs (Decidable (k ∈ m.keys))

def size (m : TreeMap K V) : ℕ := m.entries.length

lemma mem_iff {m : TreeMap K V} {k : K} : k ∈ m ↔ ∃ e ∈ m.entries, e.1 = k := by
  change k ∈ m.entries.map Prod.fst ↔ _
  rw [List.mem_map]

lemma mem_of_mem_entries {m : TreeMap K V} {e : K × V} (h : e ∈ m.entries) : e.1 ∈ m :=
  mem_iff.mpr ⟨e, h, rfl⟩

@[simp] lemma not_mem_empty (k : K) : k ∉ (∅ : TreeMap K V) := List.not_mem_nil

@[simp] lemma size_empty : (∅ : TreeMap K V).size = 0 := rfl

@[simp] lemma entries_empty : (∅ : TreeMap K V).entries = [] := rfl

lemma size_eq_zero {m : TreeMap K V} : m.size = 0 ↔ ∀ k, k ∉ m := by
  rw [size, List.length_eq_zero_iff]
  constructor
  · intro h k hk
    obtain ⟨e, he, -⟩ := mem_iff.mp hk
    rw [h] at he
    exact List.not_mem_nil he
  · exact fun h => List.eq_nil_iff_forall_not_mem.mpr fun e he => h e.1 (mem_of_mem_entries he)

lemma keys_nodup (m : TreeMap K V) : m.keys.Nodup := by
  rw [keys, List.Nodup, List.pairwise_map]
  exact m.ascending.imp ne_of_lt

/-- Maps with the same keys are equally large. -/
lemma size_eq_of_mem_iff {m m' : TreeMap K V} (h : ∀ k, k ∈ m ↔ k ∈ m') : m.size = m'.size := by
  have hperm : m.keys.Perm m'.keys :=
    (List.perm_ext_iff_of_nodup m.keys_nodup m'.keys_nodup).mpr h
  simpa [keys, size] using hperm.length_eq

/-! ### Putting -/

def putEntry (k : K) (v : V) : List (K × V) → List (K × V)
  | [] => [(k, v)]
  | e :: l =>
    if k < e.1 then (k, v) :: e :: l
    else if k = e.1 then (k, v) :: l
    else e :: putEntry k v l

lemma mem_putEntry {k : K} {v : V} {e : K × V} {l : List (K × V)} (h : e ∈ putEntry k v l) :
    e = (k, v) ∨ e ∈ l := by
  induction l with
  | nil => exact .inl (List.mem_singleton.mp h)
  | cons e' l ih =>
    rw [putEntry] at h
    split_ifs at h
    · exact List.mem_cons.mp h
    · exact (List.mem_cons.mp h).imp_right (List.mem_cons_of_mem e')
    · rcases List.mem_cons.mp h with rfl | h
      · exact .inr List.mem_cons_self
      · exact (ih h).imp_right (List.mem_cons_of_mem e')

lemma ascending_putEntry (k : K) (v : V) {l : List (K × V)}
    (h : l.Pairwise fun e e' => e.1 < e'.1) :
    (putEntry k v l).Pairwise fun e e' => e.1 < e'.1 := by
  induction l with
  | nil => exact List.pairwise_singleton _ _
  | cons e l ih =>
    have hrest := List.pairwise_cons.mp h
    rw [putEntry]
    split_ifs with hlt heq
    · refine List.pairwise_cons.mpr ⟨fun e' he' => ?_, h⟩
      rcases List.mem_cons.mp he' with rfl | he'
      · exact hlt
      · exact hlt.trans (hrest.1 e' he')
    · exact List.pairwise_cons.mpr ⟨fun e' he' => heq ▸ hrest.1 e' he', hrest.2⟩
    · refine List.pairwise_cons.mpr ⟨fun e' he' => ?_, ih hrest.2⟩
      rcases mem_putEntry he' with rfl | he'
      · exact lt_of_le_of_ne (not_lt.mp hlt) (Ne.symm heq)
      · exact hrest.1 e' he'

lemma mem_keys_putEntry {k k' : K} {v : V} {l : List (K × V)} :
    k' ∈ (putEntry k v l).map Prod.fst ↔ k' = k ∨ k' ∈ l.map Prod.fst := by
  induction l with
  | nil => simp [putEntry]
  | cons e l ih =>
    rw [putEntry]
    split_ifs with hlt heq
    · simp
    · subst heq
      simp
    · rw [List.map_cons, List.mem_cons, ih, List.map_cons, List.mem_cons]
      tauto

def put (m : TreeMap K V) (k : K) (v : V) : TreeMap K V :=
  ⟨putEntry k v m.entries, ascending_putEntry k v m.ascending⟩

@[simp] lemma mem_put {m : TreeMap K V} {k k' : K} {v : V} : k' ∈ m.put k v ↔ k' = k ∨ k' ∈ m :=
  mem_keys_putEntry

lemma mem_entries_put {m : TreeMap K V} {k : K} {v : V} {e : K × V}
    (h : e ∈ (m.put k v).entries) : e = (k, v) ∨ e ∈ m.entries :=
  mem_putEntry h

lemma size_put_of_mem {m : TreeMap K V} {k : K} {v : V} (h : k ∈ m) : (m.put k v).size = m.size :=
  size_eq_of_mem_iff fun k' => by
    rw [mem_put]
    exact ⟨fun h' => h'.elim (fun h'' => h'' ▸ h) id, .inr⟩

lemma size_put_of_not_mem {m : TreeMap K V} {k : K} {v : V} (h : k ∉ m) :
    (m.put k v).size = m.size + 1 := by
  have hperm : (m.put k v).keys.Perm (k :: m.keys) :=
    (List.perm_ext_iff_of_nodup (keys_nodup _) (List.nodup_cons.mpr ⟨h, m.keys_nodup⟩)).mpr
      fun k' => mem_put.trans List.mem_cons.symm
  simpa [keys, size] using hperm.length_eq

/-- The entries of a list are put one after the other. -/
def putAll (m : TreeMap K V) (l : List (K × V)) : TreeMap K V :=
  l.foldl (fun m e => m.put e.1 e.2) m

@[simp] lemma putAll_nil (m : TreeMap K V) : m.putAll [] = m := rfl

@[simp] lemma putAll_cons (m : TreeMap K V) (e : K × V) (l : List (K × V)) :
    m.putAll (e :: l) = (m.put e.1 e.2).putAll l := rfl

lemma mem_putAll {m : TreeMap K V} {l : List (K × V)} {k : K} :
    k ∈ m.putAll l ↔ k ∈ l.map Prod.fst ∨ k ∈ m := by
  induction l generalizing m with
  | nil => simp
  | cons e l ih =>
    rw [putAll_cons, ih, mem_put, List.map_cons, List.mem_cons]
    tauto

lemma mem_entries_putAll {m : TreeMap K V} {l : List (K × V)} {e : K × V}
    (h : e ∈ (m.putAll l).entries) : e ∈ l ∨ e ∈ m.entries := by
  induction l generalizing m with
  | nil => exact .inr h
  | cons e' l ih =>
    rcases ih h with h | h
    · exact .inl (List.mem_cons_of_mem e' h)
    · rcases mem_entries_put h with rfl | h
      · exact .inl List.mem_cons_self
      · exact .inr h

/-- New keys that differ from each other all count. -/
lemma size_putAll {m : TreeMap K V} {l : List (K × V)} (hnodup : (l.map Prod.fst).Nodup)
    (hnew : ∀ e ∈ l, e.1 ∉ m) : (m.putAll l).size = m.size + l.length := by
  induction l generalizing m with
  | nil => rfl
  | cons e l ih =>
    obtain ⟨hnot, hrest⟩ := List.nodup_cons.mp hnodup
    rw [putAll_cons, ih hrest, size_put_of_not_mem (hnew e List.mem_cons_self), List.length_cons]
    · omega
    · intro e' he' hmem
      rcases mem_put.mp hmem with h | h
      · exact hnot (h ▸ List.mem_map_of_mem he')
      · exact hnew e' (List.mem_cons_of_mem e he') h

/-! ### Removing -/

def remove (m : TreeMap K V) (k : K) : TreeMap K V :=
  ⟨m.entries.filter (·.1 ≠ k), m.ascending.filter _⟩

@[simp] lemma mem_remove {m : TreeMap K V} {k k' : K} : k' ∈ m.remove k ↔ k' ≠ k ∧ k' ∈ m := by
  rw [mem_iff, mem_iff]
  constructor
  · rintro ⟨e, he, rfl⟩
    obtain ⟨hmem, hne⟩ := List.mem_filter.mp he
    exact ⟨of_decide_eq_true hne, e, hmem, rfl⟩
  · rintro ⟨hne, e, he, rfl⟩
    exact ⟨e, List.mem_filter.mpr ⟨he, decide_eq_true hne⟩, rfl⟩

lemma mem_entries_remove {m : TreeMap K V} {k : K} {e : K × V} :
    e ∈ (m.remove k).entries ↔ e ∈ m.entries ∧ e.1 ≠ k := by
  simp [remove]

lemma size_remove_of_not_mem {m : TreeMap K V} {k : K} (h : k ∉ m) :
    (m.remove k).size = m.size :=
  size_eq_of_mem_iff fun k' => by
    rw [mem_remove]
    exact ⟨And.right, fun h' => ⟨fun heq => h (heq ▸ h'), h'⟩⟩

lemma size_remove_of_mem {m : TreeMap K V} {k : K} (h : k ∈ m) :
    (m.remove k).size + 1 = m.size := by
  have hperm : m.keys.Perm (k :: (m.remove k).keys) := by
    refine (List.perm_ext_iff_of_nodup m.keys_nodup
      (List.nodup_cons.mpr ⟨?_, keys_nodup _⟩)).mpr fun k' => ?_
    · exact fun hk => (mem_remove.mp hk).1 rfl
    · rw [List.mem_cons]
      change k' ∈ m ↔ k' = k ∨ k' ∈ m.remove k
      rw [mem_remove]
      constructor
      · exact fun h' => or_iff_not_imp_left.mpr fun hne => ⟨hne, h'⟩
      · rintro (rfl | h')
        · exact h
        · exact h'.2
  simpa [keys, size] using hperm.length_eq.symm

/-- The keys of a list are removed one after the other. -/
def removeAll (m : TreeMap K V) (ks : List K) : TreeMap K V := ks.foldl remove m

@[simp] lemma removeAll_nil (m : TreeMap K V) : m.removeAll [] = m := rfl

@[simp] lemma removeAll_cons (m : TreeMap K V) (k : K) (ks : List K) :
    m.removeAll (k :: ks) = (m.remove k).removeAll ks := rfl

lemma mem_removeAll {m : TreeMap K V} {ks : List K} {k : K} :
    k ∈ m.removeAll ks ↔ k ∉ ks ∧ k ∈ m := by
  induction ks generalizing m with
  | nil => simp
  | cons k' ks ih =>
    rw [removeAll_cons, ih, mem_remove, List.mem_cons]
    tauto

lemma mem_entries_removeAll {m : TreeMap K V} {ks : List K} {e : K × V}
    (h : e ∈ (m.removeAll ks).entries) : e ∈ m.entries := by
  induction ks generalizing m with
  | nil => exact h
  | cons k ks ih => exact (mem_entries_remove.mp (ih h)).1

/-- Keys of the map that differ from each other all count. -/
lemma size_removeAll {m : TreeMap K V} {ks : List K} (hnodup : ks.Nodup) (hmem : ∀ k ∈ ks, k ∈ m) :
    (m.removeAll ks).size + ks.length = m.size := by
  induction ks generalizing m with
  | nil => rfl
  | cons k ks ih =>
    obtain ⟨hnot, hrest⟩ := List.nodup_cons.mp hnodup
    have hone := size_remove_of_mem (hmem k List.mem_cons_self)
    have hall := ih hrest fun k' hk' =>
      mem_remove.mpr ⟨ne_of_mem_of_not_mem hk' hnot, hmem k' (List.mem_cons_of_mem k hk')⟩
    rw [removeAll_cons, List.length_cons]
    omega

/-! ### The ends -/

/-- `pollFirstEntry`: the first entry, and the map without it. -/
def pollFirstEntry (m : TreeMap K V) : Option ((K × V) × TreeMap K V) :=
  m.entries.head?.map fun e => (e, ⟨m.entries.tail, m.ascending.tail⟩)

def firstKey (m : TreeMap K V) : Option K := m.entries.head?.map Prod.fst

def lastKey (m : TreeMap K V) : Option K := m.entries.getLast?.map Prod.fst

lemma pollFirstEntry_eq_some {m m' : TreeMap K V} {e : K × V}
    (h : m.pollFirstEntry = some (e, m')) : m.entries = e :: m'.entries := by
  obtain ⟨⟨_ | ⟨e', l⟩, hm⟩, rfl⟩ : ∃ a, a = m := ⟨m, rfl⟩
  · simp [pollFirstEntry] at h
  · simp only [pollFirstEntry, List.head?_cons, Option.map_some, List.tail_cons,
      Option.some.injEq, Prod.mk.injEq] at h
    obtain ⟨rfl, rfl⟩ := h
    rfl

lemma pollFirstEntry_eq_none {m : TreeMap K V} (h : m.pollFirstEntry = none) : m.size = 0 := by
  rw [pollFirstEntry, Option.map_eq_none_iff, List.head?_eq_none_iff] at h
  rw [size, h, List.length_nil]

lemma firstKey_eq_none {m : TreeMap K V} : m.firstKey = none ↔ m.size = 0 := by
  rw [firstKey, Option.map_eq_none_iff, List.head?_eq_none_iff, size, List.length_eq_zero_iff]

lemma lastKey_eq_none {m : TreeMap K V} : m.lastKey = none ↔ m.size = 0 := by
  rw [lastKey, Option.map_eq_none_iff, List.getLast?_eq_none_iff, size, List.length_eq_zero_iff]

lemma firstKey_mem {m : TreeMap K V} {k : K} (h : m.firstKey = some k) : k ∈ m := by
  obtain ⟨e, he, rfl⟩ := Option.map_eq_some_iff.mp h
  exact mem_of_mem_entries (List.mem_of_head? he)

lemma firstKey_le {m : TreeMap K V} {k k' : K} (h : m.firstKey = some k) (hmem : k' ∈ m) :
    k ≤ k' := by
  obtain ⟨e, he, rfl⟩ := Option.map_eq_some_iff.mp h
  obtain ⟨l, hl⟩ := List.head?_eq_some_iff.mp he
  obtain ⟨e', he', rfl⟩ := mem_iff.mp hmem
  have hasc := m.ascending
  rw [hl] at he' hasc
  rcases List.mem_cons.mp he' with rfl | he'
  · exact le_rfl
  · exact ((List.pairwise_cons.mp hasc).1 e' he').le

lemma lastKey_mem {m : TreeMap K V} {k : K} (h : m.lastKey = some k) : k ∈ m := by
  obtain ⟨e, he, rfl⟩ := Option.map_eq_some_iff.mp h
  exact mem_of_mem_entries (List.mem_of_getLast? he)

lemma le_lastKey {m : TreeMap K V} {k k' : K} (h : m.lastKey = some k) (hmem : k' ∈ m) :
    k' ≤ k := by
  obtain ⟨e, he, rfl⟩ := Option.map_eq_some_iff.mp h
  obtain ⟨l, hl⟩ := List.getLast?_eq_some_iff.mp he
  obtain ⟨e', he', rfl⟩ := mem_iff.mp hmem
  have hasc := m.ascending
  rw [hl] at he' hasc
  rcases List.mem_append.mp he' with he' | he'
  · exact ((List.pairwise_append.mp hasc).2.2 e' he' e List.mem_cons_self).le
  · rw [List.mem_singleton.mp he']

end TreeMap

end CloudMQ.SortedMaps
