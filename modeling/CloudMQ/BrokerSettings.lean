import CloudMQ.CustomHeader
import CloudMQ.PropertiesFile

/-!
The settings of a broker as text: `MixAll.properties2String` and `MixAll.string2Properties`, and
the settings that `BrokerController` writes to its file, sends to an administrator and takes back.

The writer puts keys and values side by side, and the reader is `Properties.load`, for files in
Latin-1 with escapes. Strings that are read may hold any code units, so they are compared as such.
-/

namespace CloudMQ.BrokerSettings

open CloudMQ.Utf8 CloudMQ.Message CloudMQ.PropertiesFile

/-! ### The functions -/

/-- The code units of a string. -/
def utf16 (c : Char) : List ℕ :=
  if c.toNat < 0x10000 then [c.toNat]
  else [0xD800 + (c.toNat - 0x10000) / 0x400, 0xDC00 + (c.toNat - 0x10000) % 0x400]

def units (s : Text) : List ℕ := s.flatMap utf16

/-- `str.getBytes(DEFAULT_CHARSET)`, each byte taken as a character. -/
def byteChars (str : Text) : List ℕ := (utf8Encode str).map UInt8.toNat

/-- A line for each entry, in the order of `keySet`. -/
def properties2String (entries : List (Text × Text)) : Text :=
  entries.flatMap fun e => e.1 ++ '=' :: e.2 ++ ['\n']

/-- What is put into the table, in this order; `none` is an `IllegalArgumentException`. -/
def string2Properties (str : Text) : Option (List (List ℕ × List ℕ)) := load (byteChars str)

/-- The value that was put last. -/
def getProperty (loaded : List (List ℕ × List ℕ)) (key : List ℕ) : Option (List ℕ) :=
  loaded.reverse.lookup key

/-- Has the same keys and values. -/
def Equals (loaded : List (List ℕ × List ℕ)) (properties : Props) : Prop :=
  ∀ key value, getProperty loaded key = some value ↔
    ∃ e ∈ properties.entries, units e.1 = key ∧ units e.2 = value

def RoundTrips (properties : Props) : Prop :=
  ∃ loaded, string2Properties (properties2String properties.entries) = some loaded ∧
    Equals loaded properties

/-! ### Characters -/

lemma units_cons (c : Char) (s : Text) : units (c :: s) = utf16 c ++ units s := rfl

lemma byteChars_append (s t : Text) : byteChars (s ++ t) = byteChars s ++ byteChars t := by
  simp [byteChars, utf8Encode]

lemma byteChars_cons (c : Char) (s : Text) : byteChars (c :: s) = byteChars [c] ++ byteChars s :=
  byteChars_append [c] s

lemma byteChars_ascii {c : Char} (h : c.toNat < 128) : byteChars [c] = [c.toNat] := by
  have hv : c.val.toNat ≤ 0x7F := Nat.le_of_lt_succ h
  simp only [byteChars, utf8Encode, List.flatMap_singleton, String.utf8EncodeChar, if_pos hv,
    List.map_cons, List.map_nil]
  rw [toNat_ofNat_of_lt (by omega)]
  rfl

lemma encodeChar_wide {c : Char} (h : 128 ≤ c.val.toNat) :
    2 ≤ (String.utf8EncodeChar c).length ∧
      (0x10000 ≤ c.val.toNat → (String.utf8EncodeChar c).length = 4) ∧
      ∀ b ∈ String.utf8EncodeChar c, 128 ≤ b.toNat := by
  have hr := char_range c
  have hbyte {n : ℕ} (h1 : 128 ≤ n) (h2 : n < 256) : 128 ≤ (UInt8.ofNat n).toNat := by
    rwa [toNat_ofNat_of_lt h2]
  have hnil : ∀ b ∈ ([] : List UInt8), 128 ≤ b.toNat := fun _ hb => absurd hb List.not_mem_nil
  simp only [String.utf8EncodeChar]
  generalize c.val.toNat = v at hr h
  split_ifs with h1 h2 h3
  · omega
  · simp only [List.length_cons, List.length_nil, List.forall_mem_cons]
    exact ⟨by omega, fun h4 => by omega, hbyte (by omega) (by omega), hbyte (by omega) (by omega),
      hnil⟩
  · simp only [List.length_cons, List.length_nil, List.forall_mem_cons]
    exact ⟨by omega, fun h4 => by omega, hbyte (by omega) (by omega), hbyte (by omega) (by omega),
      hbyte (by omega) (by omega), hnil⟩
  · simp only [List.length_cons, List.length_nil, List.forall_mem_cons]
    exact ⟨by omega, fun _ => by simp, hbyte (by omega) (by omega), hbyte (by omega) (by omega),
      hbyte (by omega) (by omega), hbyte (by omega) (by omega), hnil⟩

/-- A character that is not in ASCII takes more bytes than code units, and none of either is in
ASCII. -/
lemma byteChars_wide {c : Char} (h : 128 ≤ c.toNat) :
    (utf16 c).length < (byteChars [c]).length ∧ (∀ b ∈ byteChars [c], 128 ≤ b) ∧
      ∀ u ∈ utf16 c, 128 ≤ u := by
  obtain ⟨htwo, hfour, hbytes⟩ := encodeChar_wide h
  have hchars : byteChars [c] = (String.utf8EncodeChar c).map UInt8.toNat := by
    simp [byteChars, utf8Encode]
  refine ⟨?_, ?_, ?_⟩
  · rw [hchars, List.length_map, utf16]
    split
    · exact htwo
    · rw [hfour (by change 0x10000 ≤ c.toNat; omega)]
      simp
  · intro b hb
    rw [hchars, List.mem_map] at hb
    obtain ⟨b', hb', rfl⟩ := hb
    exact hbytes b' hb'
  · intro u hu
    rw [utf16] at hu
    split at hu
    · rw [List.mem_singleton.mp hu]
      exact h
    · simp only [List.mem_cons, List.not_mem_nil, or_false] at hu
      omega

lemma utf16_ascii {c : Char} (h : c.toNat < 128) : utf16 c = [c.toNat] := if_pos (by omega)

def Ascii (s : Text) : Prop := ∀ c ∈ s, c.toNat < 128

lemma byteChars_of_ascii {s : Text} (h : Ascii s) : byteChars s = units s := by
  induction s with
  | nil => rfl
  | cons c s ih =>
    obtain ⟨hc, hs⟩ := List.forall_mem_cons.mp h
    rw [byteChars_cons, units_cons, byteChars_ascii hc, utf16_ascii hc, ih hs]

/-- No string has more code units than bytes, and only in ASCII has it as many. -/
lemma length_units (s : Text) :
    (units s).length ≤ (byteChars s).length ∧
      ((units s).length = (byteChars s).length → Ascii s) := by
  induction s with
  | nil => exact ⟨le_rfl, fun _ _ hc => absurd hc List.not_mem_nil⟩
  | cons c s ih =>
    rw [byteChars_cons, units_cons, List.length_append, List.length_append]
    rcases lt_or_ge c.toNat 128 with hc | hc
    · rw [byteChars_ascii hc, utf16_ascii hc]
      refine ⟨by simpa using ih.1, fun heq => List.forall_mem_cons.mpr ⟨hc, ih.2 ?_⟩⟩
      simpa using heq
    · have hwide := (byteChars_wide hc).1
      have hle := ih.1
      exact ⟨by omega, fun heq => by omega⟩

/-- The characters that only an escape can give. -/
def specials (s : Text) : ℕ := total special (units s)

lemma weight_wide {n : ℕ} (h : 128 ≤ n) : weight n = 0 ∧ special n = 0 := by
  unfold weight special
  exact ⟨by split_ifs <;> omega, if_neg (by omega)⟩

lemma total_wide {f : ℕ → ℕ} {cs : List ℕ} (hf : ∀ n, 128 ≤ n → f n = 0) (h : ∀ c ∈ cs, 128 ≤ c) :
    total f cs = 0 := by
  induction cs with
  | nil => rfl
  | cons c cs ih =>
    obtain ⟨hc, hcs⟩ := List.forall_mem_cons.mp h
    rw [total_cons, hf c hc, ih hcs]

/-- A string weighs as much in what is read as its bytes do, and more if it has special characters.
-/
lemma total_cooked_units (s : Text) :
    total cooked (units s) = total weight (byteChars s) + specials s := by
  induction s with
  | nil => rfl
  | cons c s ih =>
    rw [specials, units_cons, byteChars_cons, total_append, total_append, total_append, ih]
    rcases lt_or_ge c.toNat 128 with hc | hc
    · rw [byteChars_ascii hc, utf16_ascii hc]
      simp only [total_cons, total_nil, cooked, specials]
      omega
    · obtain ⟨-, hbytes, hunits⟩ := byteChars_wide hc
      have hcooked : ∀ n, 128 ≤ n → cooked n = 0 := fun n hn => by
        rw [cooked, (weight_wide hn).1, (weight_wide hn).2]
      rw [total_wide hcooked hunits, total_wide (fun n hn => (weight_wide hn).1) hbytes,
        total_wide (fun n hn => (weight_wide hn).2) hunits, specials]
      omega

lemma utf16_append_inj {c d : Char} {us vs : List ℕ} (h : utf16 c ++ us = utf16 d ++ vs) :
    c = d ∧ us = vs := by
  have hc := char_range c
  have hd := char_range d
  have hchar (x : Char) : x.val.toNat = x.toNat := rfl
  rw [hchar] at hc hd
  have hcode : c.toNat = d.toNat → c = d := fun hcd => by
    have := congrArg Char.ofNat hcd
    rwa [Char.ofNat_toNat, Char.ofNat_toNat] at this
  unfold utf16 at h
  split_ifs at h
  · obtain ⟨h1, h2⟩ := List.cons.inj h
    exact ⟨hcode h1, h2⟩
  · obtain ⟨h1, -⟩ := List.cons.inj h
    omega
  · obtain ⟨h1, -⟩ := List.cons.inj h
    omega
  · obtain ⟨h1, h⟩ := List.cons.inj h
    obtain ⟨h2, h3⟩ := List.cons.inj h
    exact ⟨hcode (by omega), h3⟩

lemma units_injective : Function.Injective units := by
  intro s t h
  have hne (c : Char) (us : List ℕ) : utf16 c ++ us ≠ [] := by
    unfold utf16
    split <;> exact List.cons_ne_nil _ _
  induction s generalizing t with
  | nil =>
    cases t with
    | nil => rfl
    | cons d t => exact absurd h.symm (hne d _)
  | cons c s ih =>
    cases t with
    | nil => exact absurd h (hne c _)
    | cons d t =>
      obtain ⟨rfl, hrest⟩ := utf16_append_inj h
      rw [ih hrest]

/-! ### The round trip -/

/-- A key of letters and digits, of any script, has none of the characters that end a key. -/
structure KeyName (key : Text) : Prop where
  nonempty : key ≠ []
  char : ∀ c ∈ key, isBlank c.toNat = false ∧ isSeparator c.toNat = false ∧ c ≠ '#' ∧ c ≠ '!' ∧
    c ≠ '\\' ∧ c ≠ '\n' ∧ c ≠ '\r'

/-- Comes back as it is. -/
structure Survives (e : Text × Text) : Prop where
  key : Ascii e.1
  ascii : Ascii e.2
  noEscape : '\\' ∉ e.2
  oneLine : '\n' ∉ e.2 ∧ '\r' ∉ e.2
  noBlank : ∀ c ∈ e.2.head?, isBlank c.toNat = false

def fileEntry (e : Text × Text) : List ℕ × List ℕ := (byteChars e.1, byteChars e.2)

lemma byteChars_properties2String (entries : List (Text × Text)) :
    byteChars (properties2String entries) = file (entries.map fileEntry) := by
  rw [properties2String, file]
  induction entries with
  | nil => rfl
  | cons e entries ih =>
    have hline : byteChars (e.1 ++ '=' :: e.2 ++ ['\n']) =
        byteChars e.1 ++ 61 :: byteChars e.2 ++ [10] := by
      rw [byteChars_append, byteChars_append, byteChars_cons '=' e.2, byteChars_ascii (by decide),
        byteChars_ascii (by decide)]
      rfl
    rw [List.flatMap_cons, byteChars_append, ih, hline, List.map_cons, List.flatMap_cons]
    rfl

/-- Terms that are pairwise no larger, with a sum that is not smaller, are equal. -/
lemma eq_of_sum_le {α : Type} {f g : α → ℕ} {l : List α} (hle : ∀ a ∈ l, f a ≤ g a)
    (hsum : (l.map g).sum ≤ (l.map f).sum) : ∀ a ∈ l, f a = g a := by
  induction l with
  | nil => exact fun _ ha => absurd ha List.not_mem_nil
  | cons a l ih =>
    obtain ⟨ha, hl⟩ := List.forall_mem_cons.mp hle
    have hrest := List.sum_le_sum hl
    simp only [List.map_cons, List.sum_cons] at hsum
    exact List.forall_mem_cons.mpr ⟨by omega, ih hl (by omega)⟩

def unitsEntry (e : Text × Text) : List ℕ × List ℕ := (units e.1, units e.2)

lemma nodup_unitsKeys (properties : Props) :
    (properties.entries.map fun e => units e.1).Nodup := by
  have := properties.nodup.map units_injective
  rwa [List.map_map] at this

lemma mem_of_getProperty {loaded : List (List ℕ × List ℕ)} {key value : List ℕ}
    (h : getProperty loaded key = some value) : (key, value) ∈ loaded := by
  obtain ⟨l₁, l₂, hl, -⟩ := List.lookup_eq_some_iff.mp h
  rw [← List.mem_reverse, hl]
  simp

lemma Equals.mem {loaded : List (List ℕ × List ℕ)} {properties : Props}
    (h : Equals loaded properties) {e : Text × Text} (he : e ∈ properties.entries) :
    unitsEntry e ∈ loaded :=
  mem_of_getProperty ((h _ _).mpr ⟨e, he, rfl, rfl⟩)

lemma total_weight_file (entries : List (Text × Text)) :
    total weight (file (entries.map fileEntry)) =
      entriesWeight weight (entries.map fileEntry) := by
  induction entries with
  | nil => rfl
  | cons e entries ih =>
    have h61 : weight 61 = 0 := by decide
    have h10 : weight 10 = 1 := by decide
    rw [file] at ih ⊢
    simp only [List.map_cons, List.flatMap_cons, total_append, ih, entriesWeight, List.sum_cons,
      total_cons, total_nil, h61, h10]
    omega

lemma Equals.subperm {loaded : List (List ℕ × List ℕ)} {properties : Props}
    (h : Equals loaded properties) : (properties.entries.map unitsEntry).Subperm loaded := by
  refine List.subperm_of_subset ?_ fun e he => ?_
  · have := nodup_unitsKeys properties
    exact List.Nodup.of_map Prod.fst (by rwa [List.map_map])
  · obtain ⟨e', he', rfl⟩ := List.mem_map.mp he
    exact h.mem he'

lemma entriesWeight_le_of_subperm (f : ℕ → ℕ) {l l' : List (List ℕ × List ℕ)}
    (h : l.Subperm l') : entriesWeight f l ≤ entriesWeight f l' := by
  obtain ⟨m, hperm, hm⟩ := h
  rw [entriesWeight, ← (hperm.map _).sum_eq]
  exact (hm.map _).sum_le_sum fun _ _ => Nat.zero_le _

/-- What comes back was written without special characters: they could only come from escapes,
which weigh more than the file leaves room for. -/
lemma specials_eq_zero {properties : Props} (h : RoundTrips properties) :
    ∀ e ∈ properties.entries, specials e.1 = 0 ∧ specials e.2 = 0 := by
  obtain ⟨loaded, hload, heq⟩ := h
  rcases List.eq_nil_or_concat properties.entries with hnil | ⟨before, last, hlast⟩
  · rw [hnil]
    exact fun _ he => absurd he List.not_mem_nil
  rw [string2Properties, byteChars_properties2String] at hload
  -- The file ends in a line feed.
  have hend : ∃ cs, file (properties.entries.map fileEntry) = cs ++ [10] := by
    refine ⟨file (before.map fileEntry) ++ ((fileEntry last).1 ++ 61 :: (fileEntry last).2), ?_⟩
    simp [hlast, file]
  obtain ⟨cs, hcs⟩ := hend
  have hweight := entriesWeight_load (hcs ▸ hload)
  rw [← hcs, total_weight_file] at hweight
  have hle := (entriesWeight_le_of_subperm cooked heq.subperm).trans hweight
  simp only [entriesWeight, List.map_map] at hle
  have hall := eq_of_sum_le (l := properties.entries)
    (f := fun e : Text × Text => total weight (byteChars e.1) + total weight (byteChars e.2) + 1)
    (g := fun e : Text × Text => total cooked (units e.1) + total cooked (units e.2) + 1)
    (fun e _ => by simp only [total_cooked_units]; omega) hle
  intro e he
  have := hall e he
  simp only [total_cooked_units] at this
  exact ⟨by omega, by omega⟩

/-! Without special characters the file is read as it stands. -/

lemma mem_byteChars {n : ℕ} (hn : n < 128) {s : Text} :
    n ∈ byteChars s ↔ ∃ c ∈ s, c.toNat = n := by
  induction s with
  | nil => simp [byteChars, utf8Encode]
  | cons c s ih =>
    rw [byteChars_cons, List.mem_append, ih]
    rcases lt_or_ge c.toNat 128 with hc | hc
    · rw [byteChars_ascii hc, List.mem_singleton, List.exists_mem_cons_iff]
      exact or_congr_left eq_comm
    · have hwide : n ∉ byteChars [c] := fun hmem => by
        have := (byteChars_wide hc).2.1 n hmem
        omega
      simp only [hwide, false_or, List.exists_mem_cons_iff]
      refine ⟨Or.inr, fun h => h.resolve_left fun heq => ?_⟩
      omega

lemma le_total_of_mem {f : ℕ → ℕ} {n : ℕ} {cs : List ℕ} (h : n ∈ cs) : f n ≤ total f cs :=
  List.single_le_sum (fun _ _ => Nat.zero_le _) _ (List.mem_map_of_mem h)

lemma mem_units {c : Char} {s : Text} (hc : c ∈ s) (h : c.toNat < 128) : c.toNat ∈ units s :=
  List.mem_flatMap.mpr ⟨c, hc, by rw [utf16_ascii h]; exact List.mem_singleton_self _⟩

lemma plain_of_specials {s : Text} (h : specials s = 0) : Plain (byteChars s) := by
  have hnot {n : ℕ} (hn : n < 128) (hspecial : special n = 1) : n ∉ byteChars s := fun hmem => by
    obtain ⟨c, hc, rfl⟩ := (mem_byteChars hn).mp hmem
    have hle : special c.toNat ≤ specials s := le_total_of_mem (mem_units hc hn)
    omega
  refine ⟨fun b hb => ⟨?_, ?_⟩, hnot (by decide) (by decide)⟩
  · rintro rfl
    exact hnot (by decide) (by decide) hb
  · rintro rfl
    exact hnot (by decide) (by decide) hb

lemma KeyName.word {key : Text} (h : KeyName key) : Word (byteChars key) := by
  have hnot {n : ℕ} (hn : n < 128) (hkey : ∀ c ∈ key, c.toNat ≠ n) : n ∉ byteChars key :=
    fun hmem => by
      obtain ⟨c, hc, heq⟩ := (mem_byteChars hn).mp hmem
      exact hkey c hc heq
  have hne {d : Char} (hd : ∀ c ∈ key, c ≠ d) : ∀ c ∈ key, c.toNat ≠ d.toNat := fun c hc heq => by
    have := congrArg Char.ofNat heq
    rw [Char.ofNat_toNat, Char.ofNat_toNat] at this
    exact hd c hc this
  refine ⟨?_, fun b hb => ?_, fun b hb => ?_, ?_⟩
  · intro hnil
    exact h.nonempty (utf8Encode_eq_nil.mp (List.map_eq_nil_iff.mp hnil))
  · rcases lt_or_ge b 128 with hlt | hge
    · obtain ⟨c, hc, rfl⟩ := (mem_byteChars hlt).mp hb
      obtain ⟨h1, h2, -⟩ := h.char c hc
      refine ⟨h1, h2, fun heq => ?_, fun heq => ?_⟩
      · exact hne (fun c hc => (h.char c hc).2.2.1) c hc heq
      · exact hne (fun c hc => (h.char c hc).2.2.2.1) c hc heq
    · refine ⟨?_, ?_, by omega, by omega⟩
      · simp only [isBlank, Bool.or_eq_false_iff, beq_eq_false_iff_ne]
        omega
      · simp only [isSeparator, Bool.or_eq_false_iff, beq_eq_false_iff_ne]
        omega
  · constructor
    · rintro rfl
      exact hnot (by decide) (hne fun c hc => (h.char c hc).2.2.2.2.2.1) hb
    · rintro rfl
      exact hnot (by decide) (hne fun c hc => (h.char c hc).2.2.2.2.2.2) hb
  · exact hnot (by decide) (hne fun c hc => (h.char c hc).2.2.2.2.1)

lemma isBlank_wide {n : ℕ} (h : 128 ≤ n) : isBlank n = false := by
  simp only [isBlank, Bool.or_eq_false_iff, beq_eq_false_iff_ne]
  omega

lemma dropWhile_byteChars {s : Text} (h : ∀ c ∈ s.head?, isBlank c.toNat = false) :
    (byteChars s).dropWhile isBlank = byteChars s := by
  cases s with
  | nil => rfl
  | cons c s =>
    rw [byteChars_cons]
    rcases lt_or_ge c.toNat 128 with hc | hc
    · rw [byteChars_ascii hc]
      exact List.dropWhile_cons_of_neg (by simp [h c rfl])
    · obtain ⟨hlen, hbytes, -⟩ := byteChars_wide hc
      obtain ⟨b, bs, hb⟩ := List.exists_cons_of_length_pos (Nat.zero_lt_of_lt hlen)
      rw [hb] at hbytes ⊢
      exact List.dropWhile_cons_of_neg (by simp [isBlank_wide (hbytes b List.mem_cons_self)])

lemma head_of_units {s : Text} {cs : List ℕ} (h : units s = cs.dropWhile isBlank) :
    ∀ c ∈ s.head?, isBlank c.toNat = false := by
  intro c hc
  obtain ⟨t, rfl⟩ := List.head?_eq_some_iff.mp hc
  by_contra hblank
  have hlt : c.toNat < 128 := by
    by_contra hge
    exact hblank (isBlank_wide (not_lt.mp hge))
  have hhead := List.head?_dropWhile_not isBlank cs
  rw [← h, units_cons, utf16_ascii hlt, List.singleton_append, List.head?_cons] at hhead
  exact hblank hhead

/-- What is read when there are no special characters. -/
lemma string2Properties_plain {properties : Props}
    (hkeys : ∀ e ∈ properties.entries, KeyName e.1)
    (hplain : ∀ e ∈ properties.entries, Plain (byteChars e.2)) :
    string2Properties (properties2String properties.entries) =
      some (properties.entries.map fun e =>
        (byteChars e.1, (byteChars e.2).dropWhile isBlank)) := by
  rw [string2Properties, byteChars_properties2String, load_file, List.map_map]
  · rfl
  · intro e he
    obtain ⟨e', he', rfl⟩ := List.mem_map.mp he
    exact ⟨(hkeys e' he').word, hplain e' he'⟩

lemma Survives.plain {e : Text × Text} (h : Survives e) : Plain (byteChars e.2) := by
  have hnot (d : Char) (hd : d.toNat < 128) (hmem : d ∉ e.2) : d.toNat ∉ byteChars e.2 :=
    fun hb => by
      obtain ⟨c, hc, heq⟩ := (mem_byteChars hd).mp hb
      have := congrArg Char.ofNat heq
      rw [Char.ofNat_toNat, Char.ofNat_toNat] at this
      exact hmem (this ▸ hc)
  refine ⟨fun b hb => ⟨?_, ?_⟩, hnot '\\' (by decide) h.noEscape⟩
  · rintro rfl
    exact hnot '\n' (by decide) h.oneLine.1 hb
  · rintro rfl
    exact hnot '\r' (by decide) h.oneLine.2 hb

/-- A table that was filled with entries of different keys. -/
lemma getProperty_eq_some {loaded : List (List ℕ × List ℕ)} (hnodup : (loaded.map Prod.fst).Nodup)
    {key value : List ℕ} : getProperty loaded key = some value ↔ (key, value) ∈ loaded := by
  refine ⟨mem_of_getProperty, fun h => ?_⟩
  cases hget : getProperty loaded key with
  | none =>
    have := List.lookup_eq_none_iff.mp hget (key, value) (List.mem_reverse.mpr h)
    simp at this
  | some v =>
    have hmem := mem_of_getProperty hget
    have := List.inj_on_of_nodup_map hnodup h hmem rfl
    rw [(Prod.mk.inj this).2]

theorem survives_of_roundTrips {properties : Props}
    (hkeys : ∀ e ∈ properties.entries, KeyName e.1) (h : RoundTrips properties) :
    ∀ e ∈ properties.entries, Survives e := by
  have hspecials := specials_eq_zero h
  have hplain : ∀ e ∈ properties.entries, Plain (byteChars e.2) := fun e he =>
    plain_of_specials (hspecials e he).2
  obtain ⟨loaded, hload, heq⟩ := h
  rw [string2Properties_plain hkeys hplain, Option.some.injEq] at hload
  -- The keys that were written are those that are read, so no byte was too many.
  have hkeyBytes : ∀ e ∈ properties.entries, Ascii e.1 := by
    have hsub : (properties.entries.map fun e => units e.1).Subperm
        (properties.entries.map fun e => byteChars e.1) := by
      refine List.subperm_of_subset (nodup_unitsKeys properties) fun key hkey => ?_
      obtain ⟨e, he, rfl⟩ := List.mem_map.mp hkey
      have hmem := heq.mem he
      rw [← hload] at hmem
      obtain ⟨e', he', hpair⟩ := List.mem_map.mp hmem
      exact List.mem_map.mpr ⟨e', he', congrArg Prod.fst hpair⟩
    have hperm := hsub.perm_of_length_le (by simp)
    have hsum := (hperm.map List.length).sum_eq
    rw [List.map_map, List.map_map] at hsum
    intro e he
    exact (length_units e.1).2 (eq_of_sum_le (fun e _ => (length_units e.1).1) hsum.ge e he)
  intro e he
  have hvalue : units e.2 = (byteChars e.2).dropWhile isBlank := by
    have hmem := heq.mem he
    rw [← hload] at hmem
    obtain ⟨e', he', hpair⟩ := List.mem_map.mp hmem
    obtain ⟨hkey, hval⟩ := Prod.mk.inj hpair
    rw [byteChars_of_ascii (hkeyBytes e' he')] at hkey
    obtain rfl := List.inj_on_of_nodup_map properties.nodup he' he (units_injective hkey)
    exact hval.symm
  have hblank := head_of_units hvalue
  rw [dropWhile_byteChars hblank] at hvalue
  have hascii : Ascii e.2 := (length_units e.2).2 (congrArg List.length hvalue)
  have hnot {d : Char} (hd : d.toNat < 128) (hb : d.toNat ∉ byteChars e.2) : d ∉ e.2 := fun hmem =>
    hb ((mem_byteChars hd).mpr ⟨d, hmem, rfl⟩)
  exact
    { key := hkeyBytes e he
      ascii := hascii
      noEscape := hnot (by decide) (hplain e he).noEscape
      oneLine := ⟨hnot (by decide) fun hb => ((hplain e he).oneLine _ hb).1 rfl,
        hnot (by decide) fun hb => ((hplain e he).oneLine _ hb).2 rfl⟩
      noBlank := hblank }

lemma loaded_of_survives {properties : Props}
    (hkeys : ∀ e ∈ properties.entries, KeyName e.1)
    (h : ∀ e ∈ properties.entries, Survives e) :
    string2Properties (properties2String properties.entries) =
      some (properties.entries.map unitsEntry) := by
  rw [string2Properties_plain hkeys fun e he => (h e he).plain]
  refine congrArg some (List.map_congr_left fun e he => ?_)
  rw [dropWhile_byteChars (h e he).noBlank, byteChars_of_ascii (h e he).key,
    byteChars_of_ascii (h e he).ascii]
  rfl

theorem roundTrips_of_survives {properties : Props}
    (hkeys : ∀ e ∈ properties.entries, KeyName e.1)
    (h : ∀ e ∈ properties.entries, Survives e) : RoundTrips properties := by
  refine ⟨_, loaded_of_survives hkeys h, fun key value => ?_⟩
  have hnodup : ((properties.entries.map unitsEntry).map Prod.fst).Nodup := by
    rw [List.map_map]
    exact nodup_unitsKeys properties
  rw [getProperty_eq_some hnodup, List.mem_map]
  refine exists_congr fun e => and_congr_right fun _ => ?_
  rw [unitsEntry, Prod.mk.injEq]

/-! ### The settings of a broker -/

/-- The type of a setting; an enumeration is set by the name of a constant. -/
inductive Kind
  | int
  | long
  | boolean
  | string
  | enumeration (constants : List Text)

namespace Kind

/-- The values of a type; `none` is `null`. -/
def Value : Kind → Type
  | int => Int32
  | long => Int64
  | boolean => Bool
  | string => Option Text
  | enumeration constants => { name : Text // name ∈ constants }

/-- `value.toString()`, of a value that is not `null`. -/
def text : (kind : Kind) → kind.Value → Option Text
  | int, v => some (Strings.valueOf v)
  | long, v => some (SendMessageBack.valueOfLong v)
  | boolean, v => some (CustomHeader.valueOfBoolean v)
  | string, v => v
  | enumeration _, v => some v.val

/-- The argument of the setter; `none` is an exception. -/
def parse : (kind : Kind) → Text → Option kind.Value
  | int, s => Strings.parseInt s
  | long, s => CustomHeader.parseLong s
  | boolean, s => some (SendBackPaths.parseBoolean s)
  | string, s => some (some s)
  | enumeration constants, s => if h : s ∈ constants then some ⟨s, h⟩ else none

lemma parse_text {kind : Kind} {v : kind.Value} {s : Text} (h : kind.text v = some s) :
    kind.parse s = some v := by
  cases kind with
  | int =>
    obtain rfl := Option.some.inj h
    exact Strings.parseInt_valueOf_self _
  | long =>
    obtain rfl := Option.some.inj h
    exact CustomHeader.parseLong_valueOfLong _
  | boolean =>
    obtain rfl := Option.some.inj h
    exact congrArg some (CustomHeader.parseBoolean_valueOfBoolean v)
  | string =>
    simp only [text] at h
    subst h
    rfl
  | enumeration constants =>
    obtain rfl := Option.some.inj h
    exact dif_pos v.property

end Kind

/-- A field of a configuration object. -/
structure Setting where
  name : Text
  kind : Kind
  value : kind.Value
  hasSetter : Bool

/-- The configuration objects of a broker. No two fields have one name. -/
structure BrokerController where
  brokerConfig : List Setting
  messageStoreConfig : List Setting
  nettyServerConfig : List Setting
  nettyClientConfig : List Setting
  distinct : ((brokerConfig ++ messageStoreConfig ++ nettyServerConfig ++ nettyClientConfig).map
    Setting.name).Nodup
  names : ∀ s ∈ brokerConfig ++ messageStoreConfig ++ nettyServerConfig ++ nettyClientConfig,
    KeyName s.name

namespace BrokerController

def settings (b : BrokerController) : List Setting :=
  b.brokerConfig ++ b.messageStoreConfig ++ b.nettyServerConfig ++ b.nettyClientConfig

end BrokerController

/-- The entries of `object2Properties`, which leaves out what is `null`. -/
def object2Entries (object : List Setting) : List (Text × Text) :=
  object.filterMap fun s => (s.kind.text s.value).map fun t => (s.name, t)

lemma nodup_object2Entries {object : List Setting} (h : (object.map Setting.name).Nodup) :
    ((object2Entries object).map Prod.fst).Nodup := by
  refine List.Nodup.sublist ?_ h
  induction object with
  | nil => exact List.Sublist.slnil
  | cons s object ih =>
    have hsub := ih (List.nodup_cons.mp h).2
    rw [object2Entries, List.filterMap_cons]
    cases s.kind.text s.value with
    | none => exact hsub.cons _
    | some t => exact hsub.cons_cons _

def object2Properties (object : List Setting) (h : (object.map Setting.name).Nodup) : Props :=
  ⟨object2Entries object, nodup_object2Entries h⟩

lemma BrokerController.nodup (b : BrokerController) :
    (b.brokerConfig.map Setting.name).Nodup ∧ (b.messageStoreConfig.map Setting.name).Nodup ∧
      (b.nettyServerConfig.map Setting.name).Nodup ∧
        (b.nettyClientConfig.map Setting.name).Nodup := by
  have h := b.distinct
  simp only [List.map_append, List.nodup_append] at h
  exact ⟨h.1.1.1, h.1.1.2.1, h.1.2.1, h.2.1⟩

/-- The text that `flushAllConfig` writes to the file and that an administrator is sent. -/
def encodeAllConfig (order : EntryOrder) (b : BrokerController) : Text :=
  properties2String (order.entrySet (object2Properties b.brokerConfig b.nodup.1)) ++
    properties2String (order.entrySet (object2Properties b.messageStoreConfig b.nodup.2.1)) ++
    properties2String (order.entrySet (object2Properties b.nettyServerConfig b.nodup.2.2.1)) ++
    properties2String (order.entrySet (object2Properties b.nettyClientConfig b.nodup.2.2.2))

/-- A string of code units; what is not a pair of surrogates stands for itself. -/
def textOf : List ℕ → Text
  | [] => []
  | [u] => [Char.ofNat u]
  | u :: v :: us =>
    if 0xD800 ≤ u ∧ u < 0xDC00 ∧ 0xDC00 ≤ v ∧ v < 0xE000 then
      Char.ofNat (0x10000 + (u - 0xD800) * 0x400 + (v - 0xDC00)) :: textOf us
    else Char.ofNat u :: textOf (v :: us)

/-- One round of `properties2Object`: the setter is called with what is found, or the exception is
caught. -/
def Setting.set (properties : List (List ℕ × List ℕ)) (s : Setting) : Setting :=
  if s.hasSetter then
    match getProperty properties (units s.name) with
    | none => s
    | some property =>
      match s.kind.parse (textOf property) with
      | some arg => { s with value := arg }
      | none => s
  else s

def properties2Object (properties : List (List ℕ × List ℕ)) (object : List Setting) :
    List Setting := object.map (Setting.set properties)

lemma name_set (properties : List (List ℕ × List ℕ)) (s : Setting) :
    (s.set properties).name = s.name := by
  unfold Setting.set
  split_ifs
  · split
    · rfl
    · split <;> rfl
  · rfl

/-- The settings after `updateAllConfig`; the objects do not share any. -/
def updateAllConfig (properties : List (List ℕ × List ℕ)) (b : BrokerController) : List Setting :=
  properties2Object properties b.brokerConfig ++
    properties2Object properties b.messageStoreConfig ++
    properties2Object properties b.nettyServerConfig ++
    properties2Object properties b.nettyClientConfig

/-! ### Settings that are read back -/

lemma textOf_ascii {s : Text} (h : Ascii s) : textOf (units s) = s := by
  induction s with
  | nil => rfl
  | cons c s ih =>
    obtain ⟨hc, hs⟩ := List.forall_mem_cons.mp h
    have hcode : Char.ofNat c.toNat = c := Char.ofNat_toNat c
    rw [units_cons, utf16_ascii hc, List.singleton_append]
    cases hu : units s with
    | nil =>
      have : s = [] := units_injective hu
      rw [textOf, hcode, this]
    | cons v us => rw [textOf, if_neg (by omega), hcode, ← hu, ih hs]

/-- A setting whose text comes back as it is keeps its value. -/
lemma Setting.set_eq {properties : List (List ℕ × List ℕ)} {s : Setting}
    (hget : getProperty properties (units s.name) = (s.kind.text s.value).map units)
    (hascii : ∀ t, s.kind.text s.value = some t → Ascii t) : s.set properties = s := by
  rw [Setting.set, hget]
  cases htext : s.kind.text s.value with
  | none => simp
  | some t =>
    simp only [Option.map_some, textOf_ascii (hascii t htext), Kind.parse_text htext, ite_self]

lemma mem_object2Entries {object : List Setting} {e : Text × Text} :
    e ∈ object2Entries object ↔ ∃ s ∈ object, s.name = e.1 ∧ s.kind.text s.value = some e.2 := by
  rw [object2Entries, List.mem_filterMap]
  refine exists_congr fun s => and_congr_right fun _ => ?_
  rw [Option.map_eq_some_iff]
  constructor
  · rintro ⟨t, ht, rfl⟩
    exact ⟨rfl, ht⟩
  · rintro ⟨hname, ht⟩
    exact ⟨e.2, ht, by rw [hname]⟩

/-- Settings that come back, from a file with the same entries in any order. -/
lemma set_settings {b : BrokerController} {properties : Props}
    (hperm : properties.entries.Perm (object2Entries b.settings))
    (hsurvive : ∀ e ∈ object2Entries b.settings, Survives e) :
    ∃ loaded, string2Properties (properties2String properties.entries) = some loaded ∧
      b.settings.map (Setting.set loaded) = b.settings := by
  have hkeys : ∀ e ∈ properties.entries, KeyName e.1 := fun e he => by
    obtain ⟨s, hs, hname, -⟩ := mem_object2Entries.mp (hperm.mem_iff.mp he)
    exact hname ▸ b.names s hs
  obtain ⟨loaded, hload, hequals⟩ := roundTrips_of_survives hkeys fun e he =>
    hsurvive e (hperm.mem_iff.mp he)
  refine ⟨loaded, hload, (List.map_congr_left fun s hs => ?_).trans (List.map_id _)⟩
  refine Setting.set_eq ?_ fun t ht =>
    (hsurvive (s.name, t) (mem_object2Entries.mpr ⟨s, hs, rfl, ht⟩)).ascii
  cases htext : s.kind.text s.value with
  | some t =>
    have he : (s.name, t) ∈ properties.entries :=
      hperm.mem_iff.mpr (mem_object2Entries.mpr ⟨s, hs, rfl, htext⟩)
    exact (hequals _ _).mpr ⟨(s.name, t), he, rfl, rfl⟩
  | none =>
    rw [Option.map_none, Option.eq_none_iff_forall_ne_some]
    intro value hvalue
    obtain ⟨e, he, hkey, -⟩ := (hequals _ _).mp hvalue
    obtain ⟨s', hs', hname, ht⟩ := mem_object2Entries.mp (hperm.mem_iff.mp he)
    have hsame : s' = s :=
      List.inj_on_of_nodup_map b.distinct hs' hs (hname.trans (units_injective hkey))
    rw [hsame, htext] at ht
    cases ht

lemma updateAllConfig_eq (properties : List (List ℕ × List ℕ)) (b : BrokerController) :
    updateAllConfig properties b = b.settings.map (Setting.set properties) := by
  simp [updateAllConfig, BrokerController.settings, properties2Object]

lemma object2Entries_append (l l' : List Setting) :
    object2Entries (l ++ l') = object2Entries l ++ object2Entries l' := List.filterMap_append

/-- The whole configuration is the text of one table. -/
lemma encodeAllConfig_eq (order : EntryOrder) (b : BrokerController) :
    ∃ properties : Props, properties.entries.Perm (object2Entries b.settings) ∧
      encodeAllConfig order b = properties2String properties.entries := by
  have hperm : (order.entrySet (object2Properties b.brokerConfig b.nodup.1) ++
      order.entrySet (object2Properties b.messageStoreConfig b.nodup.2.1) ++
      order.entrySet (object2Properties b.nettyServerConfig b.nodup.2.2.1) ++
      order.entrySet (object2Properties b.nettyClientConfig b.nodup.2.2.2)).Perm
        (object2Entries b.settings) := by
    rw [BrokerController.settings, object2Entries_append, object2Entries_append,
      object2Entries_append]
    exact (((order.perm _).append (order.perm _)).append (order.perm _)).append (order.perm _)
  have hnodup := (hperm.map Prod.fst).nodup_iff.mpr (nodup_object2Entries b.distinct)
  refine ⟨⟨_, hnodup⟩, hperm, ?_⟩
  simp [encodeAllConfig, properties2String]

/-- **Broker configuration.** Which tables come back from their text; and a broker whose settings
are of this kind keeps them all when it takes its own text back, or the table that an administrator
made of it. -/
theorem configuration_iff (properties : Props) (hkeys : ∀ e ∈ properties.entries, KeyName e.1)
    (b : BrokerController) :
    (RoundTrips properties ↔ ∀ e ∈ properties.entries, Survives e) ∧
      ((∀ e ∈ object2Entries b.settings, Survives e) →
        (∀ order, ∃ loaded, string2Properties (encodeAllConfig order b) = some loaded ∧
          updateAllConfig loaded b = b.settings) ∧
        ∀ table : Props, table.entries.Perm (object2Entries b.settings) →
          ∃ loaded, string2Properties (properties2String table.entries) = some loaded ∧
            updateAllConfig loaded b = b.settings) := by
  refine ⟨⟨survives_of_roundTrips hkeys, roundTrips_of_survives hkeys⟩, fun hb => ?_⟩
  have hback (table : Props) (hperm : table.entries.Perm (object2Entries b.settings)) :
      ∃ loaded, string2Properties (properties2String table.entries) = some loaded ∧
        updateAllConfig loaded b = b.settings := by
    obtain ⟨loaded, hload, hset⟩ := set_settings hperm hb
    exact ⟨loaded, hload, (updateAllConfig_eq loaded b).trans hset⟩
  refine ⟨fun order => ?_, hback⟩
  obtain ⟨table, hperm, hencode⟩ := encodeAllConfig_eq order b
  rw [hencode]
  exact hback table hperm

lemma nodup_storePath : ([("storePathRootDir".toList, "C:\\data\\store".toList)].map
    Prod.fst : List Text).Nodup := List.nodup_singleton _

lemma keyName_storePath : KeyName "storePathRootDir".toList :=
  ⟨List.cons_ne_nil _ _, by simp [isBlank, isSeparator]⟩

/-- A path with backslashes. -/
def storePath : Props := ⟨[("storePathRootDir".toList, "C:\\data\\store".toList)], nodup_storePath⟩

/-- A broker with this setting only. -/
def oneSetting : BrokerController where
  brokerConfig := []
  messageStoreConfig :=
    [⟨"storePathRootDir".toList, .string, some "C:\\data\\store".toList, true⟩]
  nettyServerConfig := []
  nettyClientConfig := []
  distinct := List.nodup_singleton _
  names := List.forall_mem_singleton.mpr keyName_storePath

theorem configuration_storePath : (∀ e ∈ storePath.entries, KeyName e.1) ∧
    (RoundTrips storePath ↔ ∀ e ∈ storePath.entries, Survives e) :=
  have hkeys : ∀ e ∈ storePath.entries, KeyName e.1 :=
    List.forall_mem_singleton.mpr keyName_storePath
  ⟨hkeys, (configuration_iff storePath hkeys oneSetting).1⟩

theorem not_roundTrips_storePath : ¬ RoundTrips storePath := by
  intro h
  have hkeys : ∀ e ∈ storePath.entries, KeyName e.1 :=
    List.forall_mem_singleton.mpr keyName_storePath
  refine (survives_of_roundTrips hkeys h _ List.mem_cons_self).noEscape ?_
  simp

end CloudMQ.BrokerSettings
