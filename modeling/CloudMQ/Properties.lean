import CloudMQ.Message

/-!
Reading a properties string back.

Names and values are written between separators that nothing escapes. As long as names hold no
separator and values no end of entry, an entry is found again under its name; its value too, when
it holds no separator and is not empty.
-/

namespace CloudMQ.Properties

open CloudMQ.Buffer CloudMQ.Utf8 CloudMQ.Strings CloudMQ.Message

lemma splitOn_terminated {sep : Char} {items : List Text} (h : ∀ l ∈ items, sep ∉ l) :
    (items.flatMap (· ++ [sep])).splitOn sep = items ++ [[]] := by
  induction items with
  | nil => rfl
  | cons l items ih =>
    rw [List.flatMap_cons, List.append_assoc, List.singleton_append,
      List.splitOn_append_cons_self_of_not_mem (h l (by simp)),
      ih fun l' hl' => h l' (List.mem_cons_of_mem _ hl'), List.cons_append]

/-- Splitting takes apart what was joined with a separator after each piece. -/
lemma split_terminated {sep : Char} {items : List Text} (hsep : ∀ l ∈ items, sep ∉ l)
    (hne : ∀ l ∈ items, l ≠ []) (h : items ≠ []) :
    split sep (items.flatMap (· ++ [sep])) = items := by
  have hmem : sep ∈ items.flatMap (· ++ [sep]) := by
    obtain ⟨l, ls, rfl⟩ := List.exists_cons_of_ne_nil h
    simp
  rw [split, if_pos hmem, splitOn_terminated hsep, List.rdropWhile_concat_pos _ _ _ (by rfl),
    List.rdropWhile_eq_self_iff]
  intro h'
  simpa using hne _ (List.getLast_mem h')

/-- The first piece of a split is the text before the first separator. -/
lemma head_split {sep : Char} {n v : Text} (hn : sep ∉ n) {x y : Text}
    (h : split sep (n ++ sep :: v) = [x, y]) : x = n := by
  rw [split, if_pos (by simp), List.splitOn_append_cons_self_of_not_mem hn] at h
  have hp : [x, y] <+: n :: v.splitOn sep := h ▸ List.rdropWhile_prefix _ _
  exact (List.cons_prefix_cons.mp hp).1

lemma split_pair {sep : Char} {n v : Text} (hn : sep ∉ n) (hv : sep ∉ v) (hne : v ≠ []) :
    split sep (n ++ sep :: v) = [n, v] := by
  rw [split, if_pos (by simp), List.splitOn_append_cons_self_of_not_mem hn,
    List.splitOn_eq_singleton hv, List.rdropWhile_eq_self_iff]
  intro _
  simpa using hne

/-! ### Entries -/

/-- An entry can be written without being torn apart. -/
structure CleanEntry (e : Text × Text) : Prop where
  name : NAME_VALUE_SEPARATOR ∉ e.1
  name_end : PROPERTY_SEPARATOR ∉ e.1
  value_end : PROPERTY_SEPARATOR ∉ e.2

/-- One step of `string2messageProperties`. -/
def readItem (m : Props) (item : Text) : Props :=
  match split NAME_VALUE_SEPARATOR item with
  | [name, value] => m.put name value
  | _ => m

def writeItem (e : Text × Text) : Text := e.1 ++ NAME_VALUE_SEPARATOR :: e.2

lemma get_readItem_of_ne {m : Props} {e : Text × Text} {name : Text} (hc : CleanEntry e)
    (hne : e.1 ≠ name) : (readItem m (writeItem e)).get name = m.get name := by
  unfold readItem writeItem
  split
  · next x y h =>
    rw [head_split hc.name h]
    exact Props.get_put_of_ne y hne
  · rfl

lemma get_readItem_self {m : Props} {name value : Text} (hc : CleanEntry (name, value))
    (hv : NAME_VALUE_SEPARATOR ∉ value) (hne : value ≠ []) :
    (readItem m (writeItem (name, value))).get name = some value := by
  unfold readItem writeItem
  rw [split_pair hc.name hv hne]
  exact Props.get_put_self m name value

lemma get_foldl_of_notMem {l : List (Text × Text)} {m : Props} {name : Text}
    (hc : ∀ e ∈ l, CleanEntry e) (hn : name ∉ l.map Prod.fst) :
    ((l.map writeItem).foldl readItem m).get name = m.get name := by
  induction l generalizing m with
  | nil => rfl
  | cons e l ih =>
    simp only [List.map_cons, List.mem_cons, not_or] at hn
    rw [List.map_cons, List.foldl_cons, ih (fun e he => hc e (List.mem_cons_of_mem _ he)) hn.2,
      get_readItem_of_ne (hc e (by simp)) (Ne.symm hn.1)]

lemma get_foldl_of_mem {l : List (Text × Text)} {m : Props} {name value : Text}
    (hc : ∀ e ∈ l, CleanEntry e) (hnodup : (l.map Prod.fst).Nodup) (hmem : (name, value) ∈ l)
    (hv : NAME_VALUE_SEPARATOR ∉ value) (hne : value ≠ []) :
    ((l.map writeItem).foldl readItem m).get name = some value := by
  induction l generalizing m with
  | nil => simp at hmem
  | cons e l ih =>
    rw [List.map_cons, List.nodup_cons] at hnodup
    have hc' := fun e he => hc e (List.mem_cons_of_mem _ he)
    rw [List.map_cons, List.foldl_cons]
    rcases List.mem_cons.mp hmem with rfl | hmem
    · rw [get_foldl_of_notMem hc' hnodup.1, get_readItem_self (hc _ (by simp)) hv hne]
    · exact ih hc' hnodup.2 hmem

/-- What is read back is put entry by entry. -/
lemma string2messageProperties_of_clean {order : EntryOrder} {m : Props}
    (hc : ∀ e ∈ m.entries, CleanEntry e) (hne : m.entries ≠ []) :
    string2messageProperties (messageProperties2String order m) =
      ((order.entrySet m).map writeItem).foldl readItem Props.empty := by
  have hperm := order.perm m
  have hc' : ∀ e ∈ order.entrySet m, CleanEntry e := fun e he => hc e (hperm.mem_iff.mp he)
  have hitems : messageProperties2String order m =
      ((order.entrySet m).map writeItem).flatMap (· ++ [PROPERTY_SEPARATOR]) := by
    unfold messageProperties2String writeItem
    rw [List.flatMap_map]
  have hsplit : split PROPERTY_SEPARATOR (messageProperties2String order m) =
      (order.entrySet m).map writeItem := by
    rw [hitems]
    refine split_terminated (fun l hl => ?_) (fun l hl => ?_) ?_
    · obtain ⟨e, he, rfl⟩ := List.mem_map.mp hl
      have h1 : PROPERTY_SEPARATOR ≠ NAME_VALUE_SEPARATOR := by decide
      simp [writeItem, (hc' e he).name_end, (hc' e he).value_end, h1]
    · obtain ⟨e, -, rfl⟩ := List.mem_map.mp hl
      simp [writeItem]
    · intro hnil
      rw [List.map_eq_nil_iff] at hnil
      rw [hnil] at hperm
      exact hne hperm.nil_eq.symm
  unfold string2messageProperties
  rw [hsplit]
  rfl

/-- **Reading an entry back.** -/
theorem get_string2messageProperties {order : EntryOrder} {m : Props} {name value : Text}
    (hc : ∀ e ∈ m.entries, CleanEntry e) (hmem : (name, value) ∈ m.entries)
    (hv : NAME_VALUE_SEPARATOR ∉ value) (hne : value ≠ []) :
    (string2messageProperties (messageProperties2String order m)).get name = some value := by
  have hperm := order.perm m
  rw [string2messageProperties_of_clean hc (List.ne_nil_of_mem hmem)]
  exact get_foldl_of_mem (fun e he => hc e (hperm.mem_iff.mp he))
    ((hperm.map Prod.fst).nodup_iff.mpr m.nodup) (hperm.mem_iff.mpr hmem) hv hne

/-! ### Properties that are read -/

lemma mem_entries_iff {m : Props} {name value : Text} :
    (name, value) ∈ m.entries ↔ m.get name = some value := by
  obtain ⟨l, hl⟩ := m
  change (name, value) ∈ l ↔ l.lookup name = some value
  induction l with
  | nil => simp
  | cons e l ih =>
    obtain ⟨n, v⟩ := e
    obtain ⟨hnew, hl⟩ := List.nodup_cons.mp hl
    rw [List.mem_cons, List.lookup_cons, Prod.mk.injEq]
    by_cases hn : name = n
    · subst hn
      have hnot : (name, value) ∉ l := fun hmem =>
        hnew (List.mem_map.mpr ⟨(name, value), hmem, rfl⟩)
      rw [beq_self_eq_true, or_iff_left hnot, and_iff_right rfl, Option.some.injEq, eq_comm]
    · rw [beq_eq_false_iff_ne.mpr hn, or_iff_right fun h => hn h.1]
      exact ih hl

@[simp] lemma get_erase_self (m : Props) (name : Text) : (m.erase name).get name = none := by
  rw [Option.eq_none_iff_forall_ne_some]
  intro value h
  simpa [Props.erase, Props.eraseEntries] using mem_entries_iff.mpr h

lemma get_erase_of_ne {m : Props} {name other : Text} (h : name ≠ other) :
    (m.erase name).get other = m.get other := Props.lookup_filter_ne h m.entries

/-- A value is found again under its name. -/
structure CleanValue (value : Text) : Prop where
  separator : NAME_VALUE_SEPARATOR ∉ value
  value_end : PROPERTY_SEPARATOR ∉ value
  nonempty : value ≠ []

/-- Every value is found again under its name. -/
def CleanProps (m : Props) : Prop := ∀ e ∈ m.entries, CleanEntry e ∧ CleanValue e.2

lemma CleanProps.value {m : Props} (h : CleanProps m) {name value : Text}
    (hget : m.get name = some value) : CleanValue value := (h _ (mem_entries_iff.mpr hget)).2

lemma CleanProps.put {m : Props} (h : CleanProps m) {name value : Text}
    (hname : NAME_VALUE_SEPARATOR ∉ name ∧ PROPERTY_SEPARATOR ∉ name) (hvalue : CleanValue value) :
    CleanProps (m.put name value) := by
  intro e he
  rcases List.mem_cons.mp he with rfl | he
  · exact ⟨⟨hname.1, hname.2, hvalue.value_end⟩, hvalue⟩
  · exact h e (List.mem_of_mem_filter he)

lemma CleanProps.erase {m : Props} (h : CleanProps m) (name : Text) : CleanProps (m.erase name) :=
  fun e he => h e (List.mem_of_mem_filter he)

/-- **Round trip of clean properties.** -/
theorem get_roundTrip {order : EntryOrder} {m : Props} (h : CleanProps m) (name : Text) :
    (string2messageProperties (messageProperties2String order m)).get name = m.get name := by
  have hc : ∀ e ∈ m.entries, CleanEntry e := fun e he => (h e he).1
  have hperm := order.perm m
  cases hget : m.get name with
  | some value =>
    have hmem := mem_entries_iff.mpr hget
    exact get_string2messageProperties hc hmem (h _ hmem).2.separator (h _ hmem).2.nonempty
  | none =>
    have hnot : name ∉ (order.entrySet m).map Prod.fst := by
      intro hmem
      obtain ⟨⟨n, v⟩, he, rfl⟩ := List.mem_map.mp hmem
      rw [mem_entries_iff.mp (hperm.mem_iff.mp he)] at hget
      cases hget
    by_cases hne : m.entries = []
    · have hnil : order.entrySet m = [] := List.perm_nil.mp (hne ▸ hperm)
      rw [messageProperties2String, hnil]
      rfl
    · rw [string2messageProperties_of_clean hc hne,
        get_foldl_of_notMem (fun e he => hc e (hperm.mem_iff.mp he)) hnot]
      rfl

lemma nodup_entries (m : Props) : m.entries.Nodup := m.nodup.of_map Prod.fst

lemma perm_entries_of_get {a b : Props} (h : ∀ name, a.get name = b.get name) :
    a.entries.Perm b.entries := by
  rw [List.perm_ext_iff_of_nodup (nodup_entries a) (nodup_entries b)]
  rintro ⟨name, value⟩
  rw [mem_entries_iff, mem_entries_iff, h name]

/-- **The map is read back.** In whatever order its entries are written, they come back, and no
others do. -/
theorem perm_string2messageProperties {order : EntryOrder} {m : Props} (h : CleanProps m) :
    (string2messageProperties (messageProperties2String order m)).entries.Perm m.entries :=
  perm_entries_of_get (get_roundTrip h)

theorem perm_string2messageProperties_keys :
    (string2messageProperties (messageProperties2String ⟨Props.entries, Props.perm_entries⟩
      (Props.empty.put PROPERTY_KEYS ['k']))).entries.Perm [(PROPERTY_KEYS, ['k'])] :=
  perm_string2messageProperties (CleanProps.put (fun _ he => absurd he List.not_mem_nil)
    (by decide) ⟨by decide, by decide, by decide⟩)

lemma mem_splitOn {sep : Char} {s p : Text} (hp : p ∈ s.splitOn sep) :
    sep ∉ p ∧ ∀ c ∈ p, c ∈ s := by
  induction s generalizing p with
  | nil =>
    rw [List.splitOn_nil, List.mem_singleton] at hp
    subst hp
    exact ⟨List.not_mem_nil, fun _ hc => hc⟩
  | cons c s ih =>
    rw [List.splitOn_cons_eq_if_modifyHead] at hp
    have hrest : ∀ {q}, q ∈ s.splitOn sep → sep ∉ q ∧ ∀ d ∈ q, d ∈ c :: s := fun hq =>
      ⟨(ih hq).1, fun d hd => List.mem_cons_of_mem c ((ih hq).2 d hd)⟩
    split_ifs at hp with hc
    · rcases List.mem_cons.mp hp with rfl | hp
      · exact ⟨List.not_mem_nil, fun _ hd => absurd hd List.not_mem_nil⟩
      · exact hrest hp
    · cases hs : s.splitOn sep with
      | nil => exact absurd hs (List.splitOn_ne_nil sep s)
      | cons q qs =>
        rw [hs, List.modifyHead_cons] at hp
        rcases List.mem_cons.mp hp with rfl | hp
        · obtain ⟨hsep, hsub⟩ := hrest (hs ▸ List.mem_cons_self : q ∈ s.splitOn sep)
          have hne : sep ≠ c := fun heq => hc (beq_iff_eq.mpr heq.symm)
          exact ⟨List.not_mem_cons_of_ne_of_not_mem hne hsep,
            List.forall_mem_cons.mpr ⟨List.mem_cons_self, hsub⟩⟩
        · exact hrest (hs ▸ List.mem_cons_of_mem q hp)

/-- No piece of a split holds the separator, or anything that the text does not hold. -/
lemma mem_split {sep : Char} {s p : Text} (hp : p ∈ split sep s) : sep ∉ p ∧ ∀ c ∈ p, c ∈ s := by
  rw [split] at hp
  split_ifs at hp with hs
  · exact mem_splitOn ((List.rdropWhile_prefix _ _).subset hp)
  · obtain rfl := List.mem_singleton.mp hp
    exact ⟨hs, fun _ hc => hc⟩

/-- The second of two pieces is not empty. -/
lemma split_pair_ne_nil {sep : Char} {s x y : Text} (h : split sep s = [x, y]) : y ≠ [] := by
  rw [split] at h
  split_ifs at h
  · have hlast := List.rdropWhile_last_not List.isEmpty (s.splitOn sep) (by rw [h]; simp)
    simp only [h] at hlast
    simpa using hlast
  · cases h

lemma rdropWhile_replicate_nil (l : List Text) (k : ℕ) :
    (l ++ List.replicate k []).rdropWhile List.isEmpty = l.rdropWhile List.isEmpty := by
  induction k with
  | zero => rw [List.replicate_zero, List.append_nil]
  | succ k ih =>
    rw [List.replicate_succ', ← List.append_assoc, List.rdropWhile_concat_pos _ _ _ rfl, ih]

lemma intercalate_pair (sep : Char) (x y : Text) (k : ℕ) :
    [sep].intercalate ([x, y] ++ List.replicate k []) = x ++ sep :: y ++ List.replicate k sep := by
  have htail : ∀ (y : Text) k,
      [sep].intercalate (y :: List.replicate k []) = y ++ List.replicate k sep := by
    intro y k
    induction k generalizing y with
    | zero => simp
    | succ k ih =>
      rw [List.replicate_succ, List.intercalate_cons_cons, ih []]
      simp [List.replicate_succ]
  rw [List.cons_append, List.singleton_append, List.intercalate_cons_cons, htail]
  simp

/-- **Two pieces.** Separators may follow the second one. -/
lemma split_eq_pair_iff {sep : Char} {s x y : Text} : split sep s = [x, y] ↔
    sep ∉ x ∧ sep ∉ y ∧ y ≠ [] ∧ ∃ k, s = x ++ sep :: y ++ List.replicate k sep := by
  constructor
  · intro h
    have hclean : ∀ p ∈ [x, y], sep ∉ p := fun p hp => (mem_split (h ▸ hp)).1
    refine ⟨hclean x (by simp), hclean y (by simp), split_pair_ne_nil h, ?_⟩
    rw [split] at h
    split_ifs at h with hsep
    · have hparts := List.rdropWhile_append_rtakeWhile (p := List.isEmpty) (l := s.splitOn sep)
      have hrest : List.rtakeWhile List.isEmpty (s.splitOn sep) = List.replicate
          (List.rtakeWhile List.isEmpty (s.splitOn sep)).length [] :=
        List.eq_replicate_iff.mpr
          ⟨rfl, fun p hp => List.isEmpty_iff.mp (List.mem_rtakeWhile_imp hp)⟩
      rw [h, hrest] at hparts
      exact ⟨_, by rw [← intercalate_pair, hparts, List.intercalate_splitOn]⟩
    · cases h
  · rintro ⟨hx, hy, hne, k, rfl⟩
    have hpieces : ∀ l ∈ [x, y] ++ List.replicate k [], sep ∉ l := by
      intro l hl
      rcases List.mem_append.mp hl with hl | hl
      · rcases List.mem_pair.mp hl with rfl | rfl
        · exact hx
        · exact hy
      · exact List.eq_of_mem_replicate hl ▸ List.not_mem_nil
    rw [split, if_pos (by simp), ← intercalate_pair,
      List.splitOn_intercalate sep hpieces (List.cons_ne_nil _ _), rdropWhile_replicate_nil,
      List.rdropWhile_eq_self_iff]
    intro _
    simpa using hne

lemma clean_readItem {m : Props} (h : CleanProps m) {item : Text}
    (hitem : PROPERTY_SEPARATOR ∉ item) : CleanProps (readItem m item) := by
  unfold readItem
  split
  · rename_i name value hsplit
    obtain ⟨hname, hnamesub⟩ := mem_split (p := name) (hsplit ▸ List.mem_cons_self)
    obtain ⟨hvalue, hvaluesub⟩ := mem_split (p := value)
      (hsplit ▸ List.mem_cons_of_mem name List.mem_cons_self)
    exact h.put ⟨hname, fun hmem => hitem (hnamesub _ hmem)⟩
      ⟨hvalue, fun hmem => hitem (hvaluesub _ hmem), split_pair_ne_nil hsplit⟩
  · exact h

/-- Whatever is read is clean. -/
theorem clean_string2messageProperties (s : Text) : CleanProps (string2messageProperties s) := by
  have hfold : ∀ items : List Text, (∀ item ∈ items, PROPERTY_SEPARATOR ∉ item) → ∀ m : Props,
      CleanProps m → CleanProps (items.foldl readItem m) := by
    intro items
    induction items with
    | nil => exact fun _ m hm => hm
    | cons item items ih =>
      intro hitems m hm
      exact ih (fun i hi => hitems i (List.mem_cons_of_mem item hi)) _
        (clean_readItem hm (hitems item List.mem_cons_self))
  exact hfold _ (fun item hitem => (mem_split hitem).1) Props.empty fun _ he =>
    absurd he List.not_mem_nil

/-! ### Sizes -/

/-- The bytes of an entry that is written, its separators included. -/
def entrySize (e : Text × Text) : ℕ := (utf8Encode e.1).length + (utf8Encode e.2).length + 2

def propsSize (m : Props) : ℕ := (m.entries.map entrySize).sum

lemma length_messageProperties2String (order : EntryOrder) (m : Props) :
    (utf8Encode (messageProperties2String order m)).length = propsSize m := by
  have hwritten : ∀ l : List (Text × Text), (utf8Encode (l.flatMap fun e =>
      e.1 ++ NAME_VALUE_SEPARATOR :: e.2 ++ [PROPERTY_SEPARATOR])).length =
      (l.map entrySize).sum := by
    intro l
    induction l with
    | nil => rfl
    | cons e l ih =>
      have hsep : (utf8Encode [NAME_VALUE_SEPARATOR]).length = 1 := rfl
      have hend : (utf8Encode [PROPERTY_SEPARATOR]).length = 1 := rfl
      rw [List.flatMap_cons, utf8Encode_append, List.length_append, ih, List.map_cons,
        List.sum_cons, entrySize, ← List.singleton_append]
      simp only [utf8Encode_append, List.length_append, hsep, hend]
      omega
  rw [messageProperties2String, hwritten, propsSize, ((order.perm m).map entrySize).sum_eq]

lemma propsSize_put_le (m : Props) (name value : Text) :
    propsSize (m.put name value) ≤ propsSize m + entrySize (name, value) := by
  have hsub : ((Props.eraseEntries name m.entries).map entrySize).sum ≤ propsSize m :=
    (List.filter_sublist.map entrySize).sum_le_sum fun _ _ => Nat.zero_le _
  rw [propsSize, Props.put, List.map_cons, List.sum_cons]
  omega

/-- Bytes of a piece, with a separator behind it. -/
def pieceSize (p : Text) : ℕ := (utf8Encode p).length + 1

lemma propsSize_readItem_le (m : Props) (item : Text) :
    propsSize (readItem m item) ≤ propsSize m + pieceSize item := by
  unfold readItem
  split
  · next name value hsplit =>
    obtain ⟨-, -, -, k, hitem⟩ := split_eq_pair_iff.mp hsplit
    have hsep : (utf8Encode [NAME_VALUE_SEPARATOR]).length = 1 := rfl
    have hput := propsSize_put_le m name value
    rw [pieceSize, hitem, ← List.singleton_append]
    simp only [utf8Encode_append, List.length_append, hsep]
    simp only [entrySize] at hput
    omega
  · omega

/-- The pieces of a text are no longer than the text, with a separator behind it. -/
lemma sum_split_le (sep : Char) (hsep : (utf8Encode [sep]).length = 1) (s : Text) :
    ((split sep s).map pieceSize).sum ≤ pieceSize s := by
  have hcons : ∀ (c : Char) (s : Text),
      pieceSize (c :: s) = (utf8Encode [c]).length + pieceSize s := by
    intro c s
    rw [pieceSize, ← List.singleton_append, utf8Encode_append, List.length_append, Nat.add_assoc]
    rfl
  have hpieces : ∀ s : Text, ((s.splitOn sep).map pieceSize).sum = pieceSize s := by
    intro s
    induction s with
    | nil => rfl
    | cons c s ih =>
      rw [List.splitOn_cons_eq_if_modifyHead]
      split_ifs with hc
      · obtain rfl := beq_iff_eq.mp hc
        rw [List.map_cons, List.sum_cons, ih, hcons, hsep]
        rfl
      · cases hs : s.splitOn sep with
        | nil => exact absurd hs (List.splitOn_ne_nil sep s)
        | cons q qs =>
          rw [hs, List.map_cons, List.sum_cons] at ih
          rw [List.modifyHead_cons, List.map_cons, List.sum_cons, hcons, hcons, ← ih,
            Nat.add_assoc]
  rw [split]
  split_ifs with hmem
  · rw [← hpieces s]
    exact ((List.rdropWhile_prefix _ _).sublist.map pieceSize).sum_le_sum fun _ _ => Nat.zero_le _
  · simp

theorem propsSize_string2messageProperties_le (s : Text) :
    propsSize (string2messageProperties s) ≤ pieceSize s := by
  have hfold : ∀ (items : List Text) (m : Props),
      propsSize (items.foldl readItem m) ≤ propsSize m + (items.map pieceSize).sum := by
    intro items
    induction items with
    | nil => exact fun m => le_rfl
    | cons item items ih =>
      intro m
      have hitem := propsSize_readItem_le m item
      have hrest := ih (readItem m item)
      rw [List.foldl_cons, List.map_cons, List.sum_cons]
      omega
  have hall := hfold (split PROPERTY_SEPARATOR s) Props.empty
  have hsum := sum_split_le PROPERTY_SEPARATOR rfl s
  have hempty : propsSize Props.empty = 0 := rfl
  change propsSize ((split PROPERTY_SEPARATOR s).foldl readItem Props.empty) ≤ _
  omega

lemma propsSize_eq_of_get {a b : Props} (h : ∀ name, a.get name = b.get name) :
    propsSize a = propsSize b := ((perm_entries_of_get h).map entrySize).sum_eq

/-! ### Numbers -/

lemma digits_chars {s : Text} {n : ℕ} (h : digits s = some n) : ∀ c ∈ s, (digit c).isSome := by
  induction s using List.reverseRecOn generalizing n with
  | nil => simp
  | append_singleton s c ih =>
    unfold digits at h
    rw [List.foldl_append, List.foldl_cons, List.foldl_nil] at h
    obtain ⟨a, ha, h⟩ := Option.bind_eq_some_iff.mp h
    obtain ⟨d, hd, -⟩ := Option.map_eq_some_iff.mp h
    intro x hx
    rcases List.mem_append.mp hx with hx | hx
    · exact ih ha x hx
    · rw [List.mem_singleton.mp hx, hd]; rfl

lemma unsigned_chars {negative : Bool} {s : Text} {n : Int32} (h : unsigned negative s = some n) :
    s ≠ [] ∧ ∀ c ∈ s, (digit c).isSome := by
  unfold unsigned at h
  split at h
  · exact absurd h (by simp)
  · next hne =>
    obtain ⟨a, ha, -⟩ := Option.bind_eq_some_iff.mp h
    exact ⟨hne, digits_chars ha⟩

/-- A number is not empty and holds no separator. -/
lemma parseInt_chars {s : Text} {n : Int32} (h : parseInt s = some n) :
    s ≠ [] ∧ NAME_VALUE_SEPARATOR ∉ s ∧ PROPERTY_SEPARATOR ∉ s := by
  have key : ∀ {t : Text}, (∀ c ∈ t, (digit c).isSome) →
      NAME_VALUE_SEPARATOR ∉ t ∧ PROPERTY_SEPARATOR ∉ t := by
    intro t ht
    exact ⟨fun hm => absurd (ht _ hm) (by decide), fun hm => absurd (ht _ hm) (by decide)⟩
  unfold parseInt at h
  split at h
  · have h' := key (unsigned_chars h).2
    refine ⟨by simp, ?_, ?_⟩
    · simp only [List.mem_cons, not_or]; exact ⟨by decide, h'.1⟩
    · simp only [List.mem_cons, not_or]; exact ⟨by decide, h'.2⟩
  · have h' := key (unsigned_chars h).2
    refine ⟨by simp, ?_, ?_⟩
    · simp only [List.mem_cons, not_or]; exact ⟨by decide, h'.1⟩
    · simp only [List.mem_cons, not_or]; exact ⟨by decide, h'.2⟩
  · exact ⟨(unsigned_chars h).1, key (unsigned_chars h).2⟩

end CloudMQ.Properties
