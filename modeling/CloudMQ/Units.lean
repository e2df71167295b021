import CloudMQ.Chain

/-!
Files of units: the queues behind a consume queue and behind the transaction state table hold
units of a fixed width, `w` bytes.

The memory of a file is the list of its units; positions stay in bytes. What was appended is one
list of units over all the files, and the lookups by offset are lookups in that list.
-/

namespace CloudMQ.Units

open CloudMQ.Extents CloudMQ.Segment CloudMQ.Chain

variable {U : Type} {w : ℕ} {q q' : MapedFileQueue (List U)} {f f' : MapedFile (List U)}

/-- `appendMessage(byte[])` with one unit. -/
def appendUnit (w size : ℕ) (u : U) (f : MapedFile (List U)) : Option (MapedFile (List U)) :=
  f.append size w (f.mappedByteBuffer.set (f.wrotePostion / w) u)

/-- The units that were written to a file. -/
def unitsOf (w : ℕ) (f : MapedFile (List U)) : List U :=
  f.mappedByteBuffer.take (f.wrotePostion / w)

def units (w : ℕ) (q : MapedFileQueue (List U)) : List U := q.mapedFiles.flatMap (unitsOf w)

/-- Every file maps a whole number of units and is written unit by unit. -/
structure Whole (w : ℕ) (q : MapedFileQueue (List U)) : Prop where
  chained : Chained q
  dvd : w ∣ q.mapedFileSize
  mapped : ∀ f ∈ q.mapedFiles, w * f.mappedByteBuffer.length = q.mapedFileSize
  wrote : ∀ f ∈ q.mapedFiles, w ∣ f.wrotePostion

lemma Whole.pos (h : Whole w q) : 0 < w := Nat.pos_of_dvd_of_pos h.dvd q.size_pos

/-! ### Appending -/

lemma length_unitsOf (h : Whole w q) (hf : f ∈ q.mapedFiles) :
    w * (unitsOf w f).length = f.wrotePostion := by
  obtain ⟨k, hk⟩ := h.wrote f hf
  have hm := h.mapped f hf
  have hle := wrote_le h.chained hf
  have hpos := h.pos
  have hk' : k ≤ f.mappedByteBuffer.length := by
    rw [hk, ← hm] at hle
    exact Nat.le_of_mul_le_mul_left hle hpos
  rw [unitsOf, List.length_take, hk, Nat.mul_div_cancel_left _ hpos, Nat.min_eq_left hk']

lemma take_set_succ (l : List U) {k : ℕ} (hk : k < l.length) (u : U) :
    (l.set k u).take (k + 1) = l.take k ++ [u] := by
  rw [List.take_add_one, List.take_set_of_le le_rfl, List.getElem?_set_self hk]
  rfl

/-- A file with room takes one more unit. -/
lemma appendUnit_some {size : ℕ} (hpos : 0 < w) (hm : w * f.mappedByteBuffer.length = size)
    (hd : w ∣ f.wrotePostion) (hlt : f.wrotePostion < size) (u : U) :
    ∃ f', appendUnit w size u f = some f' ∧ unitsOf w f' = unitsOf w f ++ [u] ∧
      f' = { f with mappedByteBuffer := f.mappedByteBuffer.set (f.wrotePostion / w) u
                    wrotePostion := f.wrotePostion + w } := by
  obtain ⟨k, hk⟩ := hd
  have hklt : k < f.mappedByteBuffer.length := by
    rw [hk, ← hm] at hlt
    exact Nat.lt_of_mul_lt_mul_left hlt
  have hroom : f.wrotePostion + w ≤ size := by
    rw [hk, ← hm, ← Nat.mul_succ]
    exact Nat.mul_le_mul_left w hklt
  refine ⟨_, if_pos hroom, ?_, rfl⟩
  simp only [unitsOf]
  rw [hk, ← Nat.mul_succ, Nat.mul_div_cancel_left _ hpos, Nat.mul_div_cancel_left _ hpos]
  exact take_set_succ _ hklt u

/-- A larger file takes a unit as well. -/
lemma appendUnit_mono {size size' : ℕ} {u : U} (h : appendUnit w size u f = some f')
    (hle : size ≤ size') : appendUnit w size' u f = some f' := by
  unfold appendUnit MapedFile.append at *
  split at h
  · rw [if_pos (by omega)]
    exact h
  · exact absurd h (by simp)

/-- Replacing the last file by one that holds more. -/
lemma Whole.setLast (h : Whole w q) (hlast : q.mapedFiles.getLast? = some f)
    (hfrom : f'.fileFromOffset = f.fileFromOffset) (hwrote : f'.wrotePostion ≤ q.mapedFileSize)
    (hm : w * f'.mappedByteBuffer.length = q.mapedFileSize) (hd : w ∣ f'.wrotePostion) :
    Whole w (q.setLast f') := by
  exact ⟨h.chained.setLast hlast hfrom hwrote, h.dvd, forall_mem_setLast h.mapped hm,
    forall_mem_setLast h.wrote hd⟩

lemma units_setLast (hlast : q.mapedFiles.getLast? = some f) {us : List U}
    (hus : unitsOf w f' = unitsOf w f ++ us) : units w (q.setLast f') = units w q ++ us := by
  have hq : q.mapedFiles = q.mapedFiles.dropLast ++ [f] :=
    (List.dropLast_append_getLast? f hlast).symm
  rw [units, units, MapedFileQueue.setLast, List.flatMap_append]
  conv_rhs => rw [hq, List.flatMap_append]
  simp only [List.flatMap_singleton, hus, List.append_assoc]

/-- A new file holds no unit yet. -/
lemma Whole.getLastMapedFile (h : Whole w q) {startOffset : ℕ} {fresh : Option (List U)}
    (hfresh : ∀ mem ∈ fresh, w * mem.length = q.mapedFileSize)
    (hq : q.getLastMapedFile startOffset fresh = (some f, q')) :
    Whole w q' ∧ units w q' = units w q ∧ q'.mapedFileSize = q.mapedFileSize ∧
      q'.mapedFiles.getLast? = some f ∧ f.wrotePostion < q.mapedFileSize := by
  have hchain := h.chained.getLastMapedFile startOffset fresh
  rw [hq] at hchain
  obtain ⟨hlast, hsize, hlt, rfl | ⟨hmem, hfiles, hzero, -⟩⟩ := getLastMapedFile_cases h.chained hq
  · exact ⟨h, rfl, rfl, hlast, hlt⟩
  · refine ⟨⟨hchain, hsize ▸ h.dvd, fun g hg => ?_, fun g hg => ?_⟩, ?_, hsize, hlast, hlt⟩
    · rw [hsize]
      rw [hfiles] at hg
      rcases List.mem_append.mp hg with hg | hg
      · exact h.mapped g hg
      · rw [List.mem_singleton.mp hg]; exact hfresh _ hmem
    · rw [hfiles] at hg
      rcases List.mem_append.mp hg with hg | hg
      · exact h.wrote g hg
      · rw [List.mem_singleton.mp hg, hzero]; exact Nat.dvd_zero w
    · rw [units, hfiles, List.flatMap_append]
      simp [units, unitsOf, hzero]

/-- **One unit more.** -/
lemma Whole.appendUnit (h : Whole w q) (hlast : q.mapedFiles.getLast? = some f)
    (hlt : f.wrotePostion < q.mapedFileSize) (u : U) :
    ∃ f', Units.appendUnit w q.mapedFileSize u f = some f' ∧ Whole w (q.setLast f') ∧
      units w (q.setLast f') = units w q ++ [u] := by
  have hmem := List.mem_of_getLast? hlast
  obtain ⟨f', happ, hunits, hf'⟩ :=
    appendUnit_some h.pos (h.mapped f hmem) (h.wrote f hmem) hlt u
  refine ⟨f', happ, h.setLast hlast (by rw [hf']) ?_ ?_ ?_, units_setLast hlast hunits⟩
  · have : f.wrotePostion + w ≤ q.mapedFileSize := by
      unfold Units.appendUnit MapedFile.append at happ
      split at happ
      · assumption
      · exact absurd happ (by simp)
    rw [hf']
    exact this
  · rw [hf']
    simpa using h.mapped f hmem
  · rw [hf']
    exact Nat.dvd_add (h.wrote f hmem) (Nat.dvd_refl w)

/-! ### Looking a unit up -/

/-- The unit with the given number, as the readers find it: through the file its offset lies in,
as far as that file is written. -/
def findUnit (w : ℕ) (q : MapedFileQueue (List U)) (i : ℕ) : Option U :=
  (q.findMapedFileByOffset (w * i) false).bind fun f =>
    if w * i % q.mapedFileSize < f.wrotePostion ∧ f.available then
      f.mappedByteBuffer[w * i % q.mapedFileSize / w]?
    else none

/-- Writing over the unit that `findUnit` finds. -/
def updateUnit (w : ℕ) (q : MapedFileQueue (List U)) (i : ℕ) (g : U → U) :
    MapedFileQueue (List U) :=
  match q.findMapedFileByOffset (w * i) false with
  | none => q
  | some f =>
    { q with mapedFiles := q.mapedFiles.map fun f' =>
        if f'.fileFromOffset = f.fileFromOffset then
          { f' with mappedByteBuffer :=
              f'.mappedByteBuffer.modify (w * i % q.mapedFileSize / w) g }
        else f' }

/-- Lists of one length, laid behind each other; the last one may be shorter. -/
lemma getElem?_flatMap_uniform {α β : Type*} {l : List α} {g : α → List β} {n r : ℕ} (hr : r < n)
    (hfull : ∀ i a, l[i]? = some a → i + 1 < l.length → (g a).length = n)
    (hlast : ∀ a ∈ l, (g a).length ≤ n) (t : ℕ) :
    (l.flatMap g)[t * n + r]? = l[t]?.bind fun a => (g a)[r]? := by
  induction l generalizing t with
  | nil => simp
  | cons a l ih =>
    have ih' := ih (fun i b hb hlt => hfull (i + 1) b (by simpa using hb) (by simpa using hlt))
      (fun b hb => hlast b (List.mem_cons_of_mem _ hb))
    rw [List.flatMap_cons]
    cases t with
    | zero =>
      rw [Nat.zero_mul, Nat.zero_add, List.getElem?_cons_zero, Option.bind_some]
      cases l with
      | nil => simp
      | cons b l =>
        rw [List.getElem?_append_left (by rw [hfull 0 a rfl (by simp)]; exact hr)]
    | succ t =>
      rw [List.getElem?_cons_succ]
      cases l with
      | nil =>
        have := hlast a (by simp)
        simp only [List.flatMap_nil, List.append_nil, List.getElem?_nil, Option.bind_none]
        rw [List.getElem?_eq_none_iff, Nat.succ_mul]
        omega
      | cons b l =>
        have ha : (g a).length = n := hfull 0 a rfl (by simp)
        rw [List.getElem?_append_right (by rw [ha, Nat.succ_mul]; omega), ha, ← ih' t]
        congr 1
        rw [Nat.succ_mul]
        omega

section Lookup

variable {first : MapedFile (List U)} {rest : List (MapedFile (List U))} {n m : ℕ}

lemma Whole.exists_count (h : Whole w q) : ∃ n, q.mapedFileSize = w * n ∧ 0 < n := by
  obtain ⟨n, hn⟩ := h.dvd
  refine ⟨n, hn, Nat.pos_of_ne_zero fun h0 => ?_⟩
  have := q.size_pos
  rw [hn, h0, Nat.mul_zero] at this
  omega

lemma Whole.length_mem (h : Whole w q) (hn : q.mapedFileSize = w * n) (hf : f ∈ q.mapedFiles) :
    f.mappedByteBuffer.length = n := by
  have := h.mapped f hf
  rw [hn] at this
  exact Nat.eq_of_mul_eq_mul_left h.pos this

/-- The first file begins with a multiple of the units of a file. -/
lemma Whole.first_eq (h : Whole w q) (hn : q.mapedFileSize = w * n)
    (hfiles : q.mapedFiles = first :: rest) (hm : first.fileFromOffset = w * m) :
    ∃ k, m = n * k ∧ first.fileFromOffset = q.mapedFileSize * k := by
  obtain ⟨k, hk⟩ := h.chained.aligned (extent first) (List.mem_map_of_mem (by simp [hfiles]))
  change first.fileFromOffset = q.mapedFileSize * k at hk
  refine ⟨k, ?_, hk⟩
  rw [hm, hn, Nat.mul_assoc] at hk
  exact Nat.eq_of_mul_eq_mul_left h.pos hk

lemma Whole.mod_offset (h : Whole w q) (hn : q.mapedFileSize = w * n)
    (hfiles : q.mapedFiles = first :: rest) (hm : first.fileFromOffset = w * m) (j : ℕ) :
    w * (m + j) % q.mapedFileSize / w = j % n ∧ w * (m + j) % q.mapedFileSize = w * (j % n) := by
  obtain ⟨k, hmk, -⟩ := h.first_eq hn hfiles hm
  have hmod : w * (m + j) % q.mapedFileSize = w * (j % n) := by
    rw [hn, Nat.mul_mod_mul_left, hmk, Nat.mul_add_mod]
  exact ⟨by rw [hmod, Nat.mul_div_cancel_left _ h.pos], hmod⟩

/-- Unit `j` of the queue lies in the file number `j / n`. -/
lemma Whole.findMapedFile (h : Whole w q) (hn : q.mapedFileSize = w * n) (hnpos : 0 < n)
    (hfiles : q.mapedFiles = first :: rest) (hm : first.fileFromOffset = w * m) (j : ℕ) :
    q.findMapedFileByOffset (w * (m + j)) false = q.mapedFiles[j / n]? := by
  obtain ⟨k, hmk, hk⟩ := h.first_eq hn hfiles hm
  have hindex : q.findIndex first (w * (m + j)) = ((j / n : ℕ) : ℤ) := by
    rw [MapedFileQueue.findIndex, hk, Nat.mul_div_cancel_left _ q.size_pos, hn,
      Nat.mul_div_mul_left _ _ h.pos, hmk, Nat.mul_add_div hnpos]
    omega
  rw [MapedFileQueue.findMapedFileByOffset, hfiles]
  simp only [hindex]
  by_cases hlt : j / n < (first :: rest).length
  · rw [if_pos ⟨Int.natCast_nonneg _, Int.ofNat_lt.mpr hlt⟩, Int.toNat_natCast]
  · rw [if_neg fun hc => hlt (Int.ofNat_lt.mp hc.2), if_neg (by simp),
      List.getElem?_eq_none_iff.mpr (Nat.le_of_not_lt hlt)]

lemma Whole.getElem?_units (h : Whole w q) (hn : q.mapedFileSize = w * n) (hnpos : 0 < n) (j : ℕ) :
    (units w q)[j]? = q.mapedFiles[j / n]?.bind fun f => (unitsOf w f)[j % n]? := by
  have hdecomp : j = j / n * n + j % n := by
    rw [Nat.mul_comm]
    exact (Nat.div_add_mod j n).symm
  conv_lhs => rw [hdecomp]
  refine getElem?_flatMap_uniform (Nat.mod_lt j hnpos) (fun i f hf hlt => ?_) (fun f hf => ?_) _
  · have hfull : f.wrotePostion = q.mapedFileSize :=
      h.chained.full (i := i) (e := extent f) (by simp [extents, hf]) (by simpa [extents] using hlt)
    have := length_unitsOf h (List.mem_of_getElem? hf)
    rw [hfull, hn] at this
    exact Nat.eq_of_mul_eq_mul_left h.pos this
  · rw [unitsOf, List.length_take, h.length_mem hn hf]
    exact Nat.min_le_right _ _

/-- The numbers of the units of a queue whose first file begins with unit `m`. -/
lemma findUnit_eq (h : Whole w q) (ha : ∀ f ∈ q.mapedFiles, f.available)
    (hfiles : q.mapedFiles = first :: rest) (hm : first.fileFromOffset = w * m) (j : ℕ) :
    findUnit w q (m + j) = (units w q)[j]? := by
  obtain ⟨n, hn, hnpos⟩ := h.exists_count
  rw [findUnit, h.findMapedFile hn hnpos hfiles hm, h.getElem?_units hn hnpos]
  refine Option.bind_congr fun f hf => ?_
  have hmem := List.mem_of_getElem? hf
  obtain ⟨k, hk⟩ := h.wrote f hmem
  obtain ⟨hdiv, hmod⟩ := h.mod_offset hn hfiles hm j
  rw [hdiv, hmod, unitsOf, List.getElem?_take, hk, Nat.mul_div_cancel_left _ h.pos]
  by_cases hlt : j % n < k
  · rw [if_pos ⟨Nat.mul_lt_mul_of_pos_left hlt h.pos, ha f hmem⟩, if_pos hlt]
  · rw [if_neg fun hc => hlt (Nat.lt_of_mul_lt_mul_left hc.1), if_neg hlt]

/-- Two files that begin at the same offset are the same. -/
lemma eq_of_start (h : Whole w q) (hfiles : q.mapedFiles = first :: rest)
    (hf : f ∈ q.mapedFiles) (hf' : f' ∈ q.mapedFiles)
    (heq : f'.fileFromOffset = f.fileFromOffset) : f' = f := by
  obtain ⟨i, hi⟩ := List.getElem?_of_mem hf
  obtain ⟨i', hi'⟩ := List.getElem?_of_mem hf'
  rw [start_of_index h.chained hfiles hi, start_of_index h.chained hfiles hi'] at heq
  have hii : i' = i := Nat.eq_of_mul_eq_mul_right q.size_pos (by omega)
  rw [hii, hi] at hi'
  exact (Option.some.inj hi').symm

/-- The file that is written to, and what is written there. -/
lemma Whole.mapedFiles_updateUnit (h : Whole w q) (hn : q.mapedFileSize = w * n) (hnpos : 0 < n)
    (hfiles : q.mapedFiles = first :: rest) (hm : first.fileFromOffset = w * m) {j : ℕ}
    (hj : j < (units w q).length) (g : U → U) :
    ∃ f, q.mapedFiles[j / n]? = some f ∧ j % n < (unitsOf w f).length ∧
      (Units.updateUnit w q (m + j) g).mapedFileSize = q.mapedFileSize ∧
      (Units.updateUnit w q (m + j) g).mapedFiles = q.mapedFiles.map fun f' =>
        if f'.fileFromOffset = f.fileFromOffset then
          { f' with mappedByteBuffer := f'.mappedByteBuffer.modify (j % n) g }
        else f' := by
  have hsome := List.getElem?_eq_getElem hj
  rw [h.getElem?_units hn hnpos] at hsome
  obtain ⟨f, hf, hunit⟩ := Option.bind_eq_some_iff.mp hsome
  obtain ⟨hdiv, -⟩ := h.mod_offset hn hfiles hm j
  refine ⟨f, hf, (List.getElem?_eq_some_iff.mp hunit).1, ?_, ?_⟩
  · rw [Units.updateUnit, h.findMapedFile hn hnpos hfiles hm, hf]
  · rw [Units.updateUnit, h.findMapedFile hn hnpos hfiles hm, hf, hdiv]

/-- Writing over a unit changes no other one. -/
lemma Whole.updateUnit (h : Whole w q) (hfiles : q.mapedFiles = first :: rest)
    (hm : first.fileFromOffset = w * m) {j : ℕ} (hj : j < (units w q).length) (g : U → U) :
    Whole w (Units.updateUnit w q (m + j) g) ∧
      units w (Units.updateUnit w q (m + j) g) = (units w q).modify j g ∧
      (Units.updateUnit w q (m + j) g).mapedFiles.map extent = q.mapedFiles.map extent := by
  obtain ⟨n, hn, hnpos⟩ := h.exists_count
  obtain ⟨f, hf, -, hsize, hq⟩ := h.mapedFiles_updateUnit hn hnpos hfiles hm hj g
  let put := fun f' : MapedFile (List U) =>
    if f'.fileFromOffset = f.fileFromOffset then
      { f' with mappedByteBuffer := f'.mappedByteBuffer.modify (j % n) g }
    else f'
  change (Units.updateUnit w q (m + j) g).mapedFiles = q.mapedFiles.map put at hq
  have hput : ∀ f', extent (put f') = extent f' ∧ (put f').wrotePostion = f'.wrotePostion ∧
      (put f').mappedByteBuffer.length = f'.mappedByteBuffer.length := by
    intro f'
    simp only [put]
    split
    · exact ⟨rfl, rfl, by simp⟩
    · exact ⟨rfl, rfl, rfl⟩
  have hext : (Units.updateUnit w q (m + j) g).mapedFiles.map extent = q.mapedFiles.map extent := by
    rw [hq, List.map_map]
    exact List.map_congr_left fun f' _ => (hput f').1
  have hwhole : Whole w (Units.updateUnit w q (m + j) g) := by
    refine ⟨?_, by rw [hsize]; exact h.dvd, fun f' hf' => ?_, fun f' hf' => ?_⟩
    · rw [Chained, extents, hext, hsize]
      exact h.chained
    · rw [hq] at hf'
      obtain ⟨f₀, hf₀, rfl⟩ := List.mem_map.mp hf'
      rw [(hput f₀).2.2, hsize]
      exact h.mapped f₀ hf₀
    · rw [hq] at hf'
      obtain ⟨f₀, hf₀, rfl⟩ := List.mem_map.mp hf'
      rw [(hput f₀).2.1]
      exact h.wrote f₀ hf₀
  refine ⟨hwhole, ?_, hext⟩
  -- unit by unit
  refine List.ext_getElem? fun i => ?_
  rw [hwhole.getElem?_units (hsize.trans hn) hnpos, hq, List.getElem?_map, List.getElem?_modify,
    h.getElem?_units hn hnpos, Option.bind_map, Option.map_eq_map, Option.map_bind]
  refine Option.bind_congr fun f' hf' => ?_
  -- two files begin at the same offset only if they are the same
  have hsame : f'.fileFromOffset = f.fileFromOffset ↔ i / n = j / n := by
    rw [start_of_index h.chained hfiles hf', start_of_index h.chained hfiles hf]
    constructor
    · intro heq
      have : i / n * q.mapedFileSize = j / n * q.mapedFileSize := by omega
      exact Nat.eq_of_mul_eq_mul_right q.size_pos this
    · intro heq
      rw [heq]
  have hboth : i = j ↔ i / n = j / n ∧ i % n = j % n := by
    constructor
    · rintro rfl
      exact ⟨rfl, rfl⟩
    · rintro ⟨h1, h2⟩
      rw [← Nat.div_add_mod i n, ← Nat.div_add_mod j n, h1, h2]
  simp only [Function.comp, put, unitsOf]
  by_cases hfile : f'.fileFromOffset = f.fileFromOffset
  · rw [if_pos hfile]
    simp only [List.getElem?_take, List.getElem?_modify]
    have hidx := hsame.mp hfile
    by_cases hmod : j % n = i % n
    · have hij : j = i := (hboth.mpr ⟨hidx, hmod.symm⟩).symm
      split
      · simp
      · simp
    · have hij : ¬ j = i := fun hij => hmod (by rw [hij])
      split
      · simp
      · simp
  · rw [if_neg hfile]
    have hij : ¬ j = i := fun hij => hfile (hsame.mpr (by rw [hij]))
    simp [hij]

end Lookup

/-! ### Recovery -/

section Recovery

variable {valid : U → Bool}

/-- The loop over the files: where it ends, and the valid units it passed. The loop goes on behind
a file that is valid to its end. -/
def scanUnits (w size : ℕ) (valid : U → Bool) : List (MapedFile (List U)) → ℕ × List U
  | [] => (0, [])
  | [f] =>
    let us := f.mappedByteBuffer.takeWhile valid
    (f.fileFromOffset + w * us.length, us)
  | f :: g :: rest =>
    let us := f.mappedByteBuffer.takeWhile valid
    if w * us.length = size then
      let r := scanUnits w size valid (g :: rest)
      (r.1, us ++ r.2)
    else (f.fileFromOffset + w * us.length, us)

/-- From the last third file on; the queue is cut behind the last valid unit. -/
def recoverUnits (w : ℕ) (valid : U → Bool) (q : MapedFileQueue (List U)) :
    MapedFileQueue (List U) × List U :=
  if q.mapedFiles = [] then (q, [])
  else
    let r := scanUnits w q.mapedFileSize valid (q.mapedFiles.drop (q.mapedFiles.length - 3))
    (q.truncateDirtyFiles r.1, r.2)

/-- What was written is valid, and what lies behind it is not. -/
structure Clean (w : ℕ) (valid : U → Bool) (q : MapedFileQueue (List U)) : Prop where
  written : ∀ f ∈ q.mapedFiles, ∀ u ∈ unitsOf w f, valid u
  behind : ∀ f ∈ q.mapedFiles, ∀ u ∈ f.mappedByteBuffer.drop (f.wrotePostion / w), valid u = false

lemma Clean.takeWhile (h : Clean w valid q) (hf : f ∈ q.mapedFiles) :
    f.mappedByteBuffer.takeWhile valid = unitsOf w f := by
  have hsplit : f.mappedByteBuffer =
      unitsOf w f ++ f.mappedByteBuffer.drop (f.wrotePostion / w) :=
    (List.take_append_drop _ _).symm
  have hnil : (f.mappedByteBuffer.drop (f.wrotePostion / w)).takeWhile valid = [] := by
    cases hdrop : f.mappedByteBuffer.drop (f.wrotePostion / w) with
    | nil => rfl
    | cons u us =>
      have := h.behind f hf u (by rw [hdrop]; simp)
      rw [List.takeWhile_cons_of_neg (by simp [this])]
  conv_lhs => rw [hsplit]
  rw [List.takeWhile_append_of_pos (h.written f hf), hnil, List.append_nil]

/-- A file that is mapped again and cut where it ended. -/
def resume (f : MapedFile (List U)) : MapedFile (List U) :=
  MapedFileQueue.loadFile f.wrotePostion f.fileFromOffset f.mappedByteBuffer

lemma scanUnits_full {files : List (MapedFile (List U))} {last : MapedFile (List U)} {size : ℕ}
    (hfull : ∀ f ∈ files, w * (f.mappedByteBuffer.takeWhile valid).length = size) :
    scanUnits w size valid (files ++ [last]) =
      (last.fileFromOffset + w * (last.mappedByteBuffer.takeWhile valid).length,
        (files ++ [last]).flatMap fun f => f.mappedByteBuffer.takeWhile valid) := by
  induction files with
  | nil => simp [scanUnits]
  | cons f files ih =>
    have ih' := ih fun f hf => hfull f (List.mem_cons_of_mem _ hf)
    cases hrest : files ++ [last] with
    | nil => simp at hrest
    | cons g rest =>
      rw [List.cons_append, hrest, scanUnits, if_pos (hfull f (by simp)), ← hrest, ih',
        List.flatMap_cons]

/-- **Recovery of units.** Mapped again and recovered, a clean queue holds what it held. -/
lemma recoverUnits_reload (h : Whole w q) (hclean : Clean w valid q) :
    (recoverUnits w valid (reload q)).1.mapedFiles = q.mapedFiles.map resume ∧
      (recoverUnits w valid (reload q)).1.mapedFileSize = q.mapedFileSize ∧
      (recoverUnits w valid (reload q)).2 =
        (q.mapedFiles.drop (q.mapedFiles.length - 3)).flatMap (unitsOf w) := by
  rcases List.eq_nil_or_concat q.mapedFiles with hnil | ⟨front, last, hfiles⟩
  · have hnil' : (reload q).mapedFiles = [] := by rw [mapedFiles_reload, hnil]; rfl
    rw [recoverUnits, if_pos hnil', hnil', hnil]
    exact ⟨rfl, rfl, rfl⟩
  rw [List.concat_eq_append] at hfiles
  have hlast : last ∈ q.mapedFiles := by simp [hfiles]
  have hfull : ∀ f ∈ front, f.wrotePostion = q.mapedFileSize := fun f hf =>
    full_of_mem_dropLast h.chained (by rwa [hfiles, List.dropLast_concat])
  let mapped := fun f : MapedFile (List U) =>
    MapedFileQueue.loadFile q.mapedFileSize f.fileFromOffset f.mappedByteBuffer
  have hreload : (reload q).mapedFiles = front.map mapped ++ [mapped last] := by
    rw [mapedFiles_reload, hfiles, List.map_append, List.map_singleton]
  have hdrop : (reload q).mapedFiles.drop ((reload q).mapedFiles.length - 3) =
      (front.drop (front.length - 2)).map mapped ++ [mapped last] := by
    rw [hreload, List.length_append, List.length_map, List.length_singleton,
      List.drop_append_of_le_length (by simp), List.map_drop]
    rfl
  have hscan : scanUnits w q.mapedFileSize valid
      ((reload q).mapedFiles.drop ((reload q).mapedFiles.length - 3)) =
      (last.fileFromOffset + last.wrotePostion,
        (q.mapedFiles.drop (q.mapedFiles.length - 3)).flatMap (unitsOf w)) := by
    rw [hdrop, scanUnits_full]
    · refine Prod.ext ?_ ?_
      · change last.fileFromOffset + w * (last.mappedByteBuffer.takeWhile valid).length = _
        rw [hclean.takeWhile hlast, length_unitsOf h hlast]
      · rw [hfiles, List.length_append, List.length_singleton,
          List.drop_append_of_le_length (by omega),
          show front.length + 1 - 3 = front.length - 2 by omega, List.flatMap_append,
          List.flatMap_append, List.flatMap_map, List.flatMap_singleton, List.flatMap_singleton]
        refine congrArg₂ _ (List.flatMap_congr fun f hf => ?_) (hclean.takeWhile hlast)
        have hmem : f ∈ q.mapedFiles := by simp [hfiles, List.mem_of_mem_drop hf]
        exact hclean.takeWhile hmem
    · intro f hf
      obtain ⟨f₀, hf₀, rfl⟩ := List.mem_map.mp hf
      have hmem : f₀ ∈ q.mapedFiles := by simp [hfiles, List.mem_of_mem_drop hf₀]
      change w * (f₀.mappedByteBuffer.takeWhile valid).length = _
      rw [hclean.takeWhile hmem, length_unitsOf h hmem, hfull f₀ (List.mem_of_mem_drop hf₀)]
  have hne : ¬ (reload q).mapedFiles = [] := by rw [hreload]; simp
  have hsize : (reload q).mapedFileSize = q.mapedFileSize := rfl
  rw [recoverUnits, if_neg hne]
  simp only
  rw [hsize, hscan]
  refine ⟨?_, rfl, rfl⟩
  have hwrote := wrote_le h.chained hlast
  rw [MapedFileQueue.truncateDirtyFiles, hreload, hfiles, List.filterMap_append, List.map_append]
  refine congrArg₂ _ ?_ ?_
  · rw [List.filterMap_map, ← List.filterMap_eq_map']
    refine List.filterMap_congr fun f hf => ?_
    -- a full file ends before the last one begins
    obtain ⟨i, hi⟩ := List.getElem?_of_mem hf
    have hlt := (List.getElem?_eq_some_iff.mp hi).1
    have hle := end_le_start h.chained hlt (f := f) (g := last)
      (by rw [hfiles, List.getElem?_append_left hlt, hi])
      (by rw [hfiles, List.getElem?_append_right le_rfl, Nat.sub_self]; rfl)
    have hnot : ¬ last.fileFromOffset + last.wrotePostion < f.fileFromOffset + q.mapedFileSize := by
      omega
    refine (if_neg hnot).trans ?_
    rw [resume, hfull f hf]
  · rw [List.map_singleton]
    by_cases hlt : last.wrotePostion < q.mapedFileSize
    · have hmod := mod_eq_sub h.chained hlast (Nat.le_add_right _ last.wrotePostion)
        (Nat.add_lt_add_left hlt _)
      rw [Nat.add_sub_cancel_left] at hmod
      have hcut : (reload q).truncateFile (last.fileFromOffset + last.wrotePostion) (mapped last) =
          some (resume last) := by
        refine (if_pos (Nat.add_lt_add_left hlt _)).trans ((if_pos (Nat.le_add_right _ _)).trans ?_)
        rw [hsize, hmod, resume]
        simp only [mapped, MapedFileQueue.loadFile, Nat.min_eq_right hwrote]
      simp only [List.filterMap_cons, hcut, List.filterMap_nil]
    · have hnot : ¬ last.fileFromOffset + last.wrotePostion <
          last.fileFromOffset + q.mapedFileSize := by omega
      have hcut : (reload q).truncateFile (last.fileFromOffset + last.wrotePostion) (mapped last) =
          some (resume last) := by
        refine (if_neg hnot).trans ?_
        rw [resume, show last.wrotePostion = q.mapedFileSize by omega]
      simp only [List.filterMap_cons, hcut, List.filterMap_nil]

/-- The last unit of all lies in one of the last three files. -/
lemma getLast?_scanned (h : Whole w q) :
    ((q.mapedFiles.drop (q.mapedFiles.length - 3)).flatMap (unitsOf w)).getLast? =
      (units w q).getLast? := by
  have hsplit : units w q = (q.mapedFiles.take (q.mapedFiles.length - 3)).flatMap (unitsOf w) ++
      (q.mapedFiles.drop (q.mapedFiles.length - 3)).flatMap (unitsOf w) := by
    rw [← List.flatMap_append, List.take_append_drop]
    rfl
  by_cases hlen : q.mapedFiles.length ≤ 3
  · rw [units, Nat.sub_eq_zero_of_le hlen, List.drop_zero]
  · -- the last but one file is full
    have hi : q.mapedFiles.length - 2 < q.mapedFiles.length := by omega
    have hget := List.getElem?_eq_getElem hi
    have hmem := List.getElem_mem hi
    have hfull : (q.mapedFiles[q.mapedFiles.length - 2]).wrotePostion = q.mapedFileSize :=
      h.chained.full (i := q.mapedFiles.length - 2) (e := extent _) (by simp [extents, hget])
        (by simp [extents]; omega)
    have hne : (q.mapedFiles.drop (q.mapedFiles.length - 3)).flatMap (unitsOf w) ≠ [] := by
      intro hnil
      have hin : q.mapedFiles[q.mapedFiles.length - 2] ∈
          q.mapedFiles.drop (q.mapedFiles.length - 3) :=
        List.mem_drop_iff_getElem.mpr ⟨1, by omega, by congr 1; omega⟩
      have hnone := List.flatMap_eq_nil_iff.mp hnil _ hin
      have hcount := length_unitsOf h hmem
      rw [hnone, hfull, List.length_nil, Nat.mul_zero] at hcount
      have := q.size_pos
      omega
    rw [hsplit, List.getLast?_append, List.getLast?_eq_some_getLast hne, Option.some_or]

/-- **A restart.** The units stay, and what is written behind them is not touched. -/
lemma Whole.recover (h : Whole w q) (hclean : Clean w valid q) :
    Whole w (recoverUnits w valid (reload q)).1 ∧
      Clean w valid (recoverUnits w valid (reload q)).1 ∧
      units w (recoverUnits w valid (reload q)).1 = units w q ∧
      (recoverUnits w valid (reload q)).1.mapedFileSize = q.mapedFileSize ∧
      (recoverUnits w valid (reload q)).1.mapedFiles.map extent = q.mapedFiles.map extent ∧
      (∀ f ∈ (recoverUnits w valid (reload q)).1.mapedFiles, f.available) ∧
      (recoverUnits w valid (reload q)).2.getLast? = (units w q).getLast? := by
  obtain ⟨hfiles, hsize, hscanned⟩ := recoverUnits_reload h hclean
  have hext : (recoverUnits w valid (reload q)).1.mapedFiles.map extent =
      q.mapedFiles.map extent := by
    rw [hfiles, List.map_map]
    rfl
  have hmem : ∀ f ∈ (recoverUnits w valid (reload q)).1.mapedFiles,
      ∃ f₀ ∈ q.mapedFiles, resume f₀ = f := by
    intro f hf
    rw [hfiles] at hf
    exact List.mem_map.mp hf
  refine ⟨⟨?_, by rw [hsize]; exact h.dvd, fun f hf => ?_, fun f hf => ?_⟩,
    ⟨fun f hf => ?_, fun f hf => ?_⟩, ?_, hsize, hext, fun f hf => ?_, ?_⟩
  · rw [Chained, extents, hext, hsize]
    exact h.chained
  · obtain ⟨f₀, hf₀, rfl⟩ := hmem f hf
    rw [hsize]
    exact h.mapped f₀ hf₀
  · obtain ⟨f₀, hf₀, rfl⟩ := hmem f hf
    exact h.wrote f₀ hf₀
  · obtain ⟨f₀, hf₀, rfl⟩ := hmem f hf
    exact hclean.written f₀ hf₀
  · obtain ⟨f₀, hf₀, rfl⟩ := hmem f hf
    exact hclean.behind f₀ hf₀
  · rw [units, hfiles, List.flatMap_map]
    rfl
  · obtain ⟨f₀, -, rfl⟩ := hmem f hf
    rfl
  · rw [hscanned, getLast?_scanned h]

end Recovery

/-! ### What the operations keep -/

/-- A queue of units as its operations leave it. -/
structure Sound (w : ℕ) (valid : U → Bool) (q : MapedFileQueue (List U)) : Prop extends
    Whole w q, Clean w valid q where
  available : ∀ f ∈ q.mapedFiles, f.available

/-- The first file begins with unit `m`. -/
def StartsAt (w m : ℕ) (q : MapedFileQueue (List U)) : Prop :=
  ∀ f ∈ q.mapedFiles.head?, f.fileFromOffset = w * m

section Keeping

variable {valid : U → Bool} {m : ℕ}

lemma Sound.nil (hfiles : q.mapedFiles = []) (hdvd : w ∣ q.mapedFileSize) : Sound w valid q where
  chained := by
    rw [Chained, extents, hfiles]
    exact .nil
  dvd := hdvd
  mapped := by simp [hfiles]
  wrote := by simp [hfiles]
  written := by simp [hfiles]
  behind := by simp [hfiles]
  available := by simp [hfiles]

lemma findUnit_units (h : Sound w valid q) (hs : StartsAt w m q) (j : ℕ) :
    findUnit w q (m + j) = (units w q)[j]? := by
  cases hfiles : q.mapedFiles with
  | nil => simp [findUnit, MapedFileQueue.findMapedFileByOffset, units, hfiles]
  | cons first rest =>
    exact findUnit_eq h.toWhole h.available hfiles (hs first (by rw [hfiles]; rfl)) j

/-- A file for the next unit, which may be a new one. -/
lemma Sound.getLastMapedFile (h : Sound w valid q) {startOffset : ℕ} {fresh : Option (List U)}
    (hfresh : ∀ mem ∈ fresh, w * mem.length = q.mapedFileSize ∧ ∀ u ∈ mem, valid u = false)
    (hq : q.getLastMapedFile startOffset fresh = (some f, q')) :
    Sound w valid q' ∧ units w q' = units w q ∧ q'.mapedFileSize = q.mapedFileSize ∧
      q'.mapedFiles.getLast? = some f ∧ f.wrotePostion < q.mapedFileSize := by
  obtain ⟨hwhole, hunits, hsize, hlast, hlt⟩ :=
    h.toWhole.getLastMapedFile (fun mem hmem => (hfresh mem hmem).1) hq
  refine ⟨⟨hwhole, ?_, ?_⟩, hunits, hsize, hlast, hlt⟩
  all_goals
    obtain ⟨-, -, -, rfl | ⟨hmem, hfiles, hzero, havail, -⟩⟩ := getLastMapedFile_cases h.chained hq
  · exact h.toClean
  · refine ⟨fun g hg => ?_, fun g hg => ?_⟩
    · rw [hfiles] at hg
      rcases List.mem_append.mp hg with hg | hg
      · exact h.written g hg
      · rw [List.mem_singleton.mp hg]
        simp [unitsOf, hzero]
    · rw [hfiles] at hg
      rcases List.mem_append.mp hg with hg | hg
      · exact h.behind g hg
      · rw [List.mem_singleton.mp hg]
        exact fun u hu => (hfresh _ hmem).2 u (List.mem_of_mem_drop hu)
  · exact h.available
  · intro g hg
    rw [hfiles] at hg
    rcases List.mem_append.mp hg with hg | hg
    · exact h.available g hg
    · rw [List.mem_singleton.mp hg]
      exact havail

/-- **One unit more**, a valid one. -/
lemma Sound.appendUnit (h : Sound w valid q) (hlast : q.mapedFiles.getLast? = some f)
    (hlt : f.wrotePostion < q.mapedFileSize) {u : U} (hu : valid u) :
    ∃ f', Units.appendUnit w q.mapedFileSize u f = some f' ∧ Sound w valid (q.setLast f') ∧
      units w (q.setLast f') = units w q ++ [u] ∧ f'.fileFromOffset = f.fileFromOffset ∧
      f'.wrotePostion = f.wrotePostion + w := by
  have hmem := List.mem_of_getLast? hlast
  obtain ⟨f', happ, hwhole, hunits⟩ := h.toWhole.appendUnit hlast hlt u
  obtain ⟨f'', happ', hus, hf'⟩ :=
    appendUnit_some h.pos (h.mapped f hmem) (h.wrote f hmem) hlt u
  obtain rfl : f' = f'' := Option.some.inj (happ.symm.trans happ')
  refine ⟨f', happ, ⟨hwhole, ⟨forall_mem_setLast h.written ?_, forall_mem_setLast h.behind ?_⟩,
    forall_mem_setLast h.available ?_⟩, hunits, by rw [hf'], by rw [hf']⟩
  · rw [hus]
    intro v hv
    rcases List.mem_append.mp hv with hv | hv
    · exact h.written f hmem v hv
    · rw [List.mem_singleton.mp hv]
      exact hu
  · rw [hf']
    intro v hv
    refine h.behind f hmem v ?_
    simp only at hv
    rw [Nat.add_div_right _ h.pos, List.drop_set_of_lt (Nat.lt_succ_self _)] at hv
    exact (List.drop_sublist_drop_left _ (Nat.le_succ _)).subset hv
  · rw [hf']
    exact h.available f hmem

lemma mem_modify {l : List U} {i : ℕ} {g : U → U} {u : U} (h : u ∈ l.modify i g) :
    u ∈ l ∨ ∃ v ∈ l, u = g v := by
  obtain ⟨k, hk⟩ := List.getElem?_of_mem h
  rw [List.getElem?_modify] at hk
  obtain ⟨v, hv, rfl⟩ := Option.map_eq_some_iff.mp hk
  have hmem := List.mem_of_getElem? hv
  split
  · exact .inr ⟨v, hmem, rfl⟩
  · exact .inl hmem

/-- **A unit is written over** by a valid one. -/
lemma Sound.updateUnit (h : Sound w valid q) (hs : StartsAt w m q) {j : ℕ}
    (hj : j < (units w q).length) {g : U → U} (hg : ∀ u, valid u → valid (g u)) :
    Sound w valid (Units.updateUnit w q (m + j) g) ∧
      units w (Units.updateUnit w q (m + j) g) = (units w q).modify j g ∧
      (Units.updateUnit w q (m + j) g).mapedFileSize = q.mapedFileSize ∧
      (Units.updateUnit w q (m + j) g).mapedFiles.map extent = q.mapedFiles.map extent := by
  cases hfiles : q.mapedFiles with
  | nil => simp [units, hfiles] at hj
  | cons first rest =>
    have hm := hs first (by rw [hfiles]; rfl)
    obtain ⟨hwhole, hunits, hext⟩ := h.toWhole.updateUnit hfiles hm hj g
    obtain ⟨n, hn, hnpos⟩ := h.toWhole.exists_count
    obtain ⟨f, hf, hlt, hsize, hq⟩ := h.toWhole.mapedFiles_updateUnit hn hnpos hfiles hm hj g
    have hfmem := List.mem_of_getElem? hf
    have hle : (unitsOf w f).length ≤ f.wrotePostion / w := by
      rw [unitsOf, List.length_take]
      exact Nat.min_le_left _ _
    refine ⟨⟨hwhole, ⟨fun f' hf' => ?_, fun f' hf' => ?_⟩, fun f' hf' => ?_⟩, hunits, hsize,
      hext.trans (by rw [hfiles])⟩
    all_goals
      rw [hq] at hf'
      obtain ⟨f₀, hf₀, rfl⟩ := List.mem_map.mp hf'
    · intro u hu
      split at hu
      · simp only [unitsOf, List.take_modify] at hu
        rcases mem_modify hu with hu | ⟨v, hv, rfl⟩
        · exact h.written f₀ hf₀ u hu
        · exact hg v (h.written f₀ hf₀ v hv)
      · exact h.written f₀ hf₀ u hu
    · intro u hu
      split at hu
      · next hstart =>
        obtain rfl := eq_of_start h.toWhole hfiles hfmem hf₀ hstart
        simp only [List.drop_modify_of_lt g _ _ _ (lt_of_lt_of_le hlt hle)] at hu
        exact h.behind f₀ hf₀ u hu
      · exact h.behind f₀ hf₀ u hu
    · split
      · exact h.available f₀ hf₀
      · exact h.available f₀ hf₀

lemma Sound.recover (h : Sound w valid q) :
    Sound w valid (recoverUnits w valid (reload q)).1 ∧
      units w (recoverUnits w valid (reload q)).1 = units w q ∧
      (recoverUnits w valid (reload q)).1.mapedFileSize = q.mapedFileSize ∧
      (recoverUnits w valid (reload q)).1.mapedFiles.map extent = q.mapedFiles.map extent ∧
      (recoverUnits w valid (reload q)).2.getLast? = (units w q).getLast? := by
  obtain ⟨h1, h2, h3, h4, h5, h6, h7⟩ := h.toWhole.recover h.toClean
  exact ⟨⟨h1, h2, h6⟩, h3, h4, h5, h7⟩

/-- The end of the queue counts its units. -/
lemma Sound.getMaxOffset (h : Sound w valid q) (hs : StartsAt w m q) (hne : q.mapedFiles ≠ []) :
    q.getMaxOffset = w * (m + (units w q).length) := by
  obtain ⟨first, rest, hfiles⟩ := List.exists_cons_of_ne_nil hne
  have hc := h.chained
  have hsum : ∀ files : List (MapedFile (List U)), (∀ f ∈ files, f ∈ q.mapedFiles) →
      w * (files.flatMap (unitsOf w)).length = ((files.map extent).map Prod.snd).sum := by
    intro files hsub
    induction files with
    | nil => simp
    | cons f files ih =>
      have hf := length_unitsOf h.toWhole (hsub f (by simp))
      rw [List.flatMap_cons, List.length_append, Nat.mul_add, hf,
        ih fun f hf => hsub f (List.mem_cons_of_mem _ hf), List.map_cons, List.map_cons,
        List.sum_cons]
      rfl
  rw [Chained, extents, hfiles, List.map_cons] at hc
  rw [getMaxOffset_eq, extents, Nat.mul_add, units, hsum _ fun f hf => hf, hfiles, List.map_cons,
    hc.endOf_eq_sum]
  exact congrArg (· + _) (hs first (by rw [hfiles]; rfl))

lemma StartsAt.of_extents (hs : StartsAt w m q)
    (hext : q'.mapedFiles.map extent = q.mapedFiles.map extent) : StartsAt w m q' := by
  intro f hf
  have hhead := congrArg List.head? hext
  rw [List.head?_map, List.head?_map, Option.mem_def.mp hf, Option.map_some] at hhead
  obtain ⟨f₀, hf₀, heq⟩ := Option.map_eq_some_iff.mp hhead.symm
  rw [← hs f₀ hf₀]
  exact (congrArg Prod.fst heq).symm

lemma StartsAt.setLast (hs : StartsAt w m q) (hlast : q.mapedFiles.getLast? = some f)
    (hfrom : f'.fileFromOffset = f.fileFromOffset) : StartsAt w m (q.setLast f') := by
  intro g hg
  have hsplit := List.dropLast_append_getLast? f hlast
  rw [StartsAt, ← hsplit] at hs
  rw [MapedFileQueue.setLast] at hg
  cases hfront : q.mapedFiles.dropLast with
  | nil =>
    rw [hfront] at hg hs
    obtain rfl := Option.mem_some_iff.mp hg
    rw [hfrom]
    exact hs f rfl
  | cons first rest =>
    rw [hfront] at hg hs
    exact hs g hg

lemma StartsAt.getLastMapedFile (hs : StartsAt w m q) (hc : Chained q) {startOffset : ℕ}
    (hstart : q.mapedFiles = [] → startOffset - startOffset % q.mapedFileSize = w * m)
    {fresh : Option (List U)} (hq : q.getLastMapedFile startOffset fresh = (some f, q')) :
    StartsAt w m q' := by
  obtain ⟨-, -, -, rfl | ⟨-, hfiles, -, -, hcreate, -⟩⟩ := getLastMapedFile_cases hc hq
  · exact hs
  · intro g hg
    rw [hfiles] at hg
    cases hfront : q.mapedFiles with
    | nil =>
      rw [hfront] at hg
      obtain rfl := Option.mem_some_iff.mp hg
      simp only [MapedFileQueue.createOffset, hfront, List.getLast?_nil, Option.some.injEq]
        at hcreate
      rw [← hcreate]
      exact hstart hfront
    | cons first rest =>
      rw [hfront] at hg
      exact hs g (by rw [hfront]; exact hg)

end Keeping

/-! ### Files that end within a unit -/

/-- The queue as if its files ended with their last whole unit. -/
def rounded (w : ℕ) (q : MapedFileQueue (List U)) : MapedFileQueue (List U) :=
  { q with mapedFileSize := max 1 (w * (q.mapedFileSize / w))
           size_pos := Nat.lt_of_lt_of_le Nat.one_pos (Nat.le_max_left _ _) }

/-- Either a whole number of units fills a file, or there is one file at the most. -/
def Single (w : ℕ) (q : MapedFileQueue (List U)) : Prop :=
  w ∣ q.mapedFileSize ∨ q.mapedFiles.length ≤ 1

/-- In a queue whose files end within a unit, the first file has room for another unit. -/
def HasRoom (w : ℕ) (q : MapedFileQueue (List U)) : Prop :=
  w ∣ q.mapedFileSize ∨ w * ((units w q).length + 1) ≤ q.mapedFileSize

instance (w : ℕ) (q : MapedFileQueue (List U)) : Decidable (HasRoom w q) :=
  inferInstanceAs (Decidable (_ ∨ _))

section Rounded

variable {valid : U → Bool}

lemma rounded_of_dvd (h : w ∣ q.mapedFileSize) : rounded w q = q := by
  have hsize : max 1 (w * (q.mapedFileSize / w)) = q.mapedFileSize := by
    rw [Nat.mul_div_cancel' h]
    exact max_eq_right q.size_pos
  cases q
  simp only [rounded, MapedFileQueue.mk.injEq, true_and]
  exact ⟨hsize, trivial⟩

lemma Sound.size_rounded (h : Sound w valid (rounded w q)) :
    (rounded w q).mapedFileSize = w * (q.mapedFileSize / w) := by
  refine max_eq_right (Nat.pos_of_ne_zero fun hzero => ?_)
  have hpos := h.pos
  have hdvd : w ∣ max 1 (w * (q.mapedFileSize / w)) := h.dvd
  have hone : w ∣ 1 := by rwa [hzero] at hdvd
  have hdiv : q.mapedFileSize / 1 = 0 := by simpa [Nat.dvd_one.mp hone] using hzero
  have := q.size_pos
  omega

/-- What is known about a queue whose files end within a unit. -/
lemma Single.cases (h : Sound w valid (rounded w q)) (hs : StartsAt w 0 q) (hr : Single w q) :
    rounded w q = q ∨
      (q.mapedFiles = [] ∨ ∃ f, q.mapedFiles = [f] ∧ f.fileFromOffset = 0 ∧
        f.wrotePostion = w * (units w q).length ∧
        f.wrotePostion ≤ w * (q.mapedFileSize / w)) := by
  rcases hr with hd | hlen
  · exact .inl (rounded_of_dvd hd)
  · refine .inr ?_
    match hfiles : q.mapedFiles with
    | [] => exact .inl rfl
    | [f] =>
      have hmem : f ∈ (rounded w q).mapedFiles := by
        change f ∈ q.mapedFiles
        simp [hfiles]
      have hfrom : f.fileFromOffset = w * 0 := hs f (by rw [hfiles]; rfl)
      have hwrote := length_unitsOf h.toWhole hmem
      have hle := wrote_le h.chained hmem
      have hunits : units w q = unitsOf w f := by rw [units, hfiles]; simp
      rw [h.size_rounded] at hle
      rw [hunits]
      exact .inr ⟨f, rfl, hfrom, hwrote.symm, hle⟩
    | _ :: _ :: _ => simp [hfiles] at hlen

lemma HasRoom.le (h : Sound w valid (rounded w q)) (hroom : HasRoom w q)
    (hd : ¬ w ∣ q.mapedFileSize) :
    w * (units w q).length + w ≤ w * (q.mapedFileSize / w) := by
  have hle : (units w q).length + 1 ≤ q.mapedFileSize / w := by
    rw [Nat.le_div_iff_mul_le h.pos, Nat.mul_comm]
    exact hroom.resolve_left hd
  rw [← Nat.mul_succ]
  exact Nat.mul_le_mul_left w hle

/-- A file for the next unit is found in both in the same way. -/
lemma getLastMapedFile_rounded (h : Sound w valid (rounded w q)) (hs : StartsAt w 0 q)
    (hr : Single w q) (hroom : HasRoom w q) (fresh : Option (List U)) :
    (rounded w q).getLastMapedFile 0 fresh =
      ((q.getLastMapedFile 0 fresh).1, rounded w (q.getLastMapedFile 0 fresh).2) := by
  have hcreate : (rounded w q).createOffset 0 = q.createOffset 0 := by
    by_cases hd : w ∣ q.mapedFileSize
    · rw [rounded_of_dvd hd]
    have hle := hroom.le h hd
    have hdiv := Nat.mul_div_le q.mapedFileSize w
    rcases hr.cases h hs with heq | hnil | ⟨f, hfiles, -, hwrote, -⟩
    · rw [heq]
    · have hnil' : (rounded w q).mapedFiles = [] := hnil
      simp [MapedFileQueue.createOffset, hnil, hnil']
    · have hfiles' : (rounded w q).mapedFiles = [f] := hfiles
      have hpos := h.pos
      have hopen : ∀ size, w * (q.mapedFileSize / w) ≤ size → ¬ f.isFull size := by
        intro size hsize
        simp only [MapedFile.isFull, decide_eq_true_eq]
        omega
      simp only [MapedFileQueue.createOffset, hfiles, hfiles', List.getLast?_singleton]
      rw [if_neg (hopen _ h.size_rounded.ge), if_neg (hopen _ hdiv)]
  unfold MapedFileQueue.getLastMapedFile
  rw [hcreate]
  cases q.createOffset 0 with
  | none => rfl
  | some createOffset =>
    cases fresh with
    | none => rfl
    | some mem => rfl

/-- A unit is found in both at the same place. -/
lemma findMapedFile_rounded (h : Sound w valid (rounded w q)) (hs : StartsAt w 0 q)
    (hr : Single w q) {i : ℕ} (hi : i < (units w q).length) :
    (rounded w q).findMapedFileByOffset (w * i) false = q.findMapedFileByOffset (w * i) false ∧
      w * i % (rounded w q).mapedFileSize = w * i % q.mapedFileSize := by
  have hpos := h.pos
  have hsize := h.size_rounded
  have hdiv := Nat.mul_div_le q.mapedFileSize w
  rcases hr.cases h hs with heq | hnil | ⟨f, hfiles, hfrom, hwrote, hle⟩
  · rw [heq]
    exact ⟨rfl, rfl⟩
  · have hnil' : (rounded w q).mapedFiles = [] := hnil
    simp [units, hnil] at hi
  · have hlt := Nat.mul_lt_mul_of_pos_left hi hpos
    have hfiles' : (rounded w q).mapedFiles = [f] := hfiles
    refine ⟨?_, by rw [hsize, Nat.mod_eq_of_lt (by omega), Nat.mod_eq_of_lt (by omega)]⟩
    simp only [MapedFileQueue.findMapedFileByOffset, MapedFileQueue.findIndex, hfiles, hfiles',
      hfrom, hsize]
    rw [Nat.div_eq_of_lt (by omega), Nat.div_eq_of_lt (show w * i < q.mapedFileSize by omega),
      Nat.zero_div, Nat.zero_div]

lemma findUnit_rounded (h : Sound w valid (rounded w q)) (hs : StartsAt w 0 q)
    (hr : Single w q) (i : ℕ) : findUnit w q i = (units w q)[i]? := by
  by_cases hi : i < (units w q).length
  · obtain ⟨hfind, hmod⟩ := findMapedFile_rounded h hs hr hi
    have hround := findUnit_units h (m := 0) hs i
    rw [Nat.zero_add, findUnit, hfind, hmod] at hround
    exact hround
  · rw [List.getElem?_eq_none_iff.mpr (by omega)]
    rcases hr.cases h hs with heq | hnil | ⟨f, hfiles, hfrom, hwrote, -⟩
    · have hround := findUnit_units h (m := 0) hs i
      rw [Nat.zero_add, heq] at hround
      rw [hround, List.getElem?_eq_none_iff.mpr (by omega)]
    · simp [findUnit, MapedFileQueue.findMapedFileByOffset, hnil]
    · -- behind the units that were written, or in a file that is not there
      have hge := Nat.mul_le_mul_left w (Nat.le_of_not_lt hi)
      rw [findUnit, MapedFileQueue.findMapedFileByOffset, hfiles]
      simp only [MapedFileQueue.findIndex, hfrom, Nat.zero_div]
      by_cases hlt : w * i < q.mapedFileSize
      · rw [Nat.div_eq_of_lt hlt, Nat.mod_eq_of_lt hlt]
        simp only [List.length_singleton]
        rw [if_pos (by omega)]
        simp only [Int.toNat_zero, sub_zero, Nat.cast_zero, List.getElem?_cons_zero,
          Option.bind_some]
        rw [if_neg (by omega)]
      · have hone : 1 ≤ w * i / q.mapedFileSize :=
          (Nat.le_div_iff_mul_le q.size_pos).mpr (by omega)
        rw [if_neg (by simp only [List.length_singleton]; omega), if_neg (by simp)]
        rfl

lemma updateUnit_rounded (h : Sound w valid (rounded w q)) (hs : StartsAt w 0 q)
    (hr : Single w q) {i : ℕ} (hi : i < (units w q).length) (g : U → U) :
    rounded w (updateUnit w q i g) = updateUnit w (rounded w q) i g := by
  obtain ⟨hfind, hmod⟩ := findMapedFile_rounded h hs hr hi
  unfold updateUnit
  rw [hfind, hmod]
  cases q.findMapedFileByOffset (w * i) false with
  | none => rfl
  | some f => rfl

lemma Sound.congr (h : Sound w valid q) (hfiles : q'.mapedFiles = q.mapedFiles)
    (hsize : q'.mapedFileSize = q.mapedFileSize) : Sound w valid q' where
  chained := by
    rw [Chained, extents, hfiles, hsize]
    exact h.chained
  dvd := hsize ▸ h.dvd
  mapped := by
    rw [hfiles, hsize]
    exact h.mapped
  wrote := hfiles ▸ h.wrote
  written := hfiles ▸ h.written
  behind := hfiles ▸ h.behind
  available := hfiles ▸ h.available

/-- Recovery finds the end of a file that ends within a unit. -/
lemma mapedFiles_recover_rounded (h : Sound w valid (rounded w q)) (hs : StartsAt w 0 q)
    (hr : Single w q) (hroom : HasRoom w q) :
    (recoverUnits w valid (reload q)).1.mapedFiles = q.mapedFiles.map resume := by
  have hdiv := Nat.mul_div_le q.mapedFileSize w
  by_cases hd : w ∣ q.mapedFileSize
  · rw [rounded_of_dvd hd] at h
    exact (recoverUnits_reload h.toWhole h.toClean).1
  have hle := hroom.le h hd
  rcases hr.cases h hs with heq | hnil | ⟨f, hfiles, hfrom, hwrote, -⟩
  · rw [heq] at h
    exact (recoverUnits_reload h.toWhole h.toClean).1
  · have hnil' : (reload q).mapedFiles = [] := by rw [mapedFiles_reload, hnil]; rfl
    rw [recoverUnits, if_pos hnil', hnil', hnil]
    rfl
  · have hreload : (reload q).mapedFiles =
        [MapedFileQueue.loadFile q.mapedFileSize f.fileFromOffset f.mappedByteBuffer] := by
      rw [mapedFiles_reload, hfiles]
      rfl
    have hpos := h.pos
    have hmem : f ∈ (rounded w q).mapedFiles := by
      change f ∈ q.mapedFiles
      simp [hfiles]
    have hscan : (scanUnits w q.mapedFileSize valid (reload q).mapedFiles).1 =
        f.wrotePostion := by
      rw [hreload, scanUnits]
      change f.fileFromOffset + w * (f.mappedByteBuffer.takeWhile valid).length = _
      rw [h.toClean.takeWhile hmem, length_unitsOf h.toWhole hmem, hfrom, Nat.zero_add]
    rw [recoverUnits, if_neg (by rw [hreload]; simp)]
    have hdrop : (reload q).mapedFiles.drop ((reload q).mapedFiles.length - 3) =
        (reload q).mapedFiles := by
      rw [hreload]
      rfl
    have hsize' : (reload q).mapedFileSize = q.mapedFileSize := rfl
    simp only [hdrop, hsize', hscan, MapedFileQueue.truncateDirtyFiles]
    rw [hreload, hfiles]
    simp only [List.filterMap_cons, List.filterMap_nil, MapedFileQueue.truncateFile,
      MapedFileQueue.loadFile, hsize', hfrom, Nat.zero_add, List.map_cons, List.map_nil]
    rw [if_pos (by omega), if_pos (Nat.zero_le _), Nat.mod_eq_of_lt (by omega)]
    simp only [resume, MapedFileQueue.loadFile, hfrom]
    rw [Nat.min_eq_right (by omega)]

/-- **A restart** of a queue whose files may end within a unit. -/
lemma recover_rounded (h : Sound w valid (rounded w q)) (hs : StartsAt w 0 q)
    (hr : Single w q) (hroom : HasRoom w q) :
    Sound w valid (rounded w (recoverUnits w valid (reload q)).1) ∧
      units w (recoverUnits w valid (reload q)).1 = units w q ∧
      (recoverUnits w valid (reload q)).1.mapedFileSize = q.mapedFileSize ∧
      (recoverUnits w valid (reload q)).1.mapedFiles.map extent = q.mapedFiles.map extent := by
  have hfiles := mapedFiles_recover_rounded h hs hr hroom
  have hsize : (recoverUnits w valid (reload q)).1.mapedFileSize = q.mapedFileSize := by
    unfold recoverUnits
    split
    · rfl
    · rfl
  obtain ⟨hsound, -⟩ := h.recover
  obtain ⟨hfiles', hsize', -⟩ := recoverUnits_reload h.toWhole h.toClean
  refine ⟨hsound.congr (hfiles.trans hfiles'.symm) ?_, ?_, hsize, ?_⟩
  · rw [hsize']
    simp only [rounded, hsize]
  · rw [units, hfiles, List.flatMap_map]
    rfl
  · rw [hfiles, List.map_map]
    rfl

end Rounded

end CloudMQ.Units
