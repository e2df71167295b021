import Mathlib.Data.List.AList
import Mathlib.Tactic

/-!
Hash maps and the order they are walked through.

A map is an association list with one entry for each key. The order in which the entries of a
hash map come is not specified; a walk is given by a list of preferred keys, so that every order
is the walk of some preference.
-/

namespace CloudMQ.Tables

variable {K V W : Type} [DecidableEq K]

/-- A hash map. -/
abbrev Table (K V : Type) := AList fun _ : K => V

/-- Equality of maps, by their entries. -/
instance [DecidableEq V] : DecidableEq (Table K V) := fun _ _ =>
  decidable_of_iff _ AList.ext_iff.symm

@[simp] lemma lookup_insert_ite (t : Table K V) (k k' : K) (v : V) :
    (t.insert k v).lookup k' = if k' = k then some v else t.lookup k' := by
  split_ifs with h
  · subst h
    exact AList.lookup_insert t
  · exact AList.lookup_insert_ne h

@[simp] lemma lookup_erase_ite (t : Table K V) (k k' : K) :
    (t.erase k).lookup k' = if k' = k then none else t.lookup k' := by
  split_ifs with h
  · subst h
    exact AList.lookup_erase k' t
  · exact AList.lookup_erase_ne h

lemma mem_iff_lookup {t : Table K V} {k : K} : k ∈ t ↔ ∃ v, t.lookup k = some v := by
  rw [← AList.lookup_isSome, Option.isSome_iff_exists]

lemma mem_entries_iff {t : Table K V} {k : K} {v : V} :
    (⟨k, v⟩ : Sigma fun _ => V) ∈ t.entries ↔ t.lookup k = some v :=
  AList.mem_lookup_iff.symm

lemma eq_empty_iff {t : Table K V} : t = ∅ ↔ ∀ k, t.lookup k = none := by
  constructor
  · rintro rfl k
    exact AList.lookup_empty k
  · intro h
    apply AList.ext
    rw [AList.empty_entries, List.eq_nil_iff_forall_not_mem]
    rintro ⟨k, v⟩ hmem
    rw [mem_entries_iff, h k] at hmem
    simp at hmem

lemma ne_empty_iff {t : Table K V} : t ≠ ∅ ↔ ∃ k v, t.lookup k = some v := by
  rw [Ne, eq_empty_iff]
  simp only [Option.eq_none_iff_forall_ne_some, not_forall, not_not]

lemma erase_of_lookup_none {t : Table K V} {k : K} (h : t.lookup k = none) : t.erase k = t := by
  apply AList.ext
  exact List.kerase_of_notMem_keys (AList.lookup_eq_none.mp h)

/-! ### Maps with the same entries -/

/-- `equals` of two maps; the order of the entries does not count. -/
def Same (t t' : Table K V) : Prop := ∀ k, t.lookup k = t'.lookup k

instance [DecidableEq V] (t t' : Table K V) : Decidable (Same t t') :=
  decidable_of_iff (∀ k ∈ t.keys ++ t'.keys, t.lookup k = t'.lookup k) <| by
    constructor
    · intro h k
      by_cases hk : k ∈ t.keys ++ t'.keys
      · exact h k hk
      · simp only [List.mem_append, not_or] at hk
        rw [AList.lookup_eq_none.mpr hk.1, AList.lookup_eq_none.mpr hk.2]
    · exact fun h k _ => h k

lemma Same.symm {t t' : Table K V} (h : Same t t') : Same t' t := fun k => (h k).symm

lemma Same.trans {t t' t'' : Table K V} (h : Same t t') (h' : Same t' t'') : Same t t'' :=
  fun k => (h k).trans (h' k)

lemma Same.mem_iff {t t' : Table K V} (h : Same t t') (k : K) : k ∈ t ↔ k ∈ t' := by
  rw [mem_iff_lookup, mem_iff_lookup, h k]

/-! ### Rewriting every entry -/

omit [DecidableEq K] in
lemma keys_filterMap_sublist (f : K → V → Option W) (l : List (Sigma fun _ : K => V)) :
    (l.filterMap fun e => (f e.1 e.2).map fun w => (⟨e.1, w⟩ : Sigma fun _ : K => W)).keys.Sublist
      l.keys := by
  induction l with
  | nil => simp
  | cons e l ih =>
    rw [List.filterMap_cons]
    cases f e.1 e.2 with
    | none => exact ih.cons e.1
    | some w => exact ih.cons_cons e.1

/-- Every entry is rewritten, or dropped when nothing is left of it. -/
def mapMaybe (f : K → V → Option W) (t : Table K V) : Table K W :=
  ⟨t.entries.filterMap fun e => (f e.1 e.2).map fun w => ⟨e.1, w⟩,
    List.Nodup.sublist (keys_filterMap_sublist f t.entries) t.nodupKeys⟩

@[simp] lemma lookup_mapMaybe (f : K → V → Option W) (t : Table K V) (k : K) :
    (mapMaybe f t).lookup k = (t.lookup k).bind (f k) := by
  apply Option.ext
  intro w
  rw [← mem_entries_iff, Option.bind_eq_some_iff]
  constructor
  · intro h
    obtain ⟨⟨k', v⟩, hmem, hf⟩ := List.mem_filterMap.mp h
    obtain ⟨w', hw, heq⟩ := Option.map_eq_some_iff.mp hf
    cases heq
    exact ⟨v, mem_entries_iff.mp hmem, hw⟩
  · rintro ⟨v, hv, hw⟩
    exact List.mem_filterMap.mpr ⟨⟨k, v⟩, mem_entries_iff.mpr hv, by simp [hw]⟩

/-! ### Walks -/

/-- The order of a walk: the preferred keys first. -/
def order (pref : List K) (t : Table K V) : List K :=
  (pref.dedup.filter (· ∈ t)) ++ t.keys.filter (· ∉ pref)

@[simp] lemma mem_order {pref : List K} {t : Table K V} {k : K} : k ∈ order pref t ↔ k ∈ t := by
  by_cases hk : k ∈ pref <;> simp [order, hk, AList.mem_keys]

lemma nodup_order (pref : List K) (t : Table K V) : (order pref t).Nodup := by
  refine List.Nodup.append (pref.nodup_dedup.filter _) (t.keys_nodup.filter _) ?_
  intro k hk hk'
  simp only [List.mem_filter, List.mem_dedup, decide_eq_true_eq] at hk hk'
  exact hk'.2 hk.1

end CloudMQ.Tables
