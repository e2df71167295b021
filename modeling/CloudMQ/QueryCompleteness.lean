import CloudMQ.IndexQuery

/-!
What a query of the message index finds among the entries that were put.

The chain of a slot is followed from its last entry, and left as soon as an entry is too early; the
files are visited from the last one, and left as soon as one begins too early. Times do not fall, so
nothing that is left out this way is in the interval asked for, apart from the first entries of the
files behind the first one, whose times are read too late.
-/

namespace CloudMQ.QueryCompleteness

open CloudMQ.Utf8 CloudMQ.Strings CloudMQ.Message CloudMQ.IndexService CloudMQ.IndexQuery
open CloudMQ.IndexCompleteness (entries)
open CloudMQ.HashChain

/-! ### What is promised -/

/-- A key that is put for a message. -/
abbrev Put := DispatchRequest × Text

def offset (p : Put) : Int64 := p.1.commitLogOffset
def time (p : Put) : ℤ := p.1.storeTimestamp.toInt
def hash (p : Put) : Int32 := IndexFile.indexKeyHashMethod (buildKey p.1.topic p.2)

/-- The keys that are put for a list of messages. -/
def indexed (ms : List DispatchRequest) : List Put :=
  ms.flatMap fun m => (indexKeys m).map fun key => (m, key)

/-- The offsets of the hits among entries of a file. -/
def found (f : IndexFile) (keyHash : Int32) (beginTime endTime : Int64) (us : List IndexUnit) :
    List Int64 :=
  (us.filter (isHit f keyHash beginTime endTime)).map IndexUnit.phyOffset

/-- All hits. -/
def hits (files : List IndexFile) (keyHash : Int32) (beginTime endTime : Int64) : List Int64 :=
  files.flatMap fun f => found f keyHash beginTime endTime f.indexes

/-- All entries, without the first ones of the files behind the first file. -/
def unshifted : List IndexFile → List IndexUnit
  | [] => []
  | f :: fs => f.indexes ++ fs.flatMap fun f => f.indexes.tail

/-! ### The chain of a slot -/

/-- The slot of an entry. -/
def slotOf (cfg : Config) (u : IndexUnit) : ℕ := slotPos cfg u.keyHash

/-- The chains of a file hold together, and the times read from the `k`-th entry on do not fall. -/
structure Readable (cfg : Config) (k : ℕ) (f : IndexFile) : Prop where
  linked : Linked (slotOf cfg) IndexUnit.slotValue f.indexes
  slots : ∀ p, f.slots p = lastIn (slotOf cfg) p f.indexes
  fits : f.indexes.length < cfg.indexNum
  nonneg : ∀ u ∈ f.indexes.drop k, ¬ u.timeDiff < 0
  sorted : (f.indexes.drop k).Pairwise fun u v => timeRead f u ≤ timeRead f v

section Select

variable {cfg : Config} {f : IndexFile} {keyHash maxNum : Int32} {beginTime endTime : Int64}

lemma found_snoc (us : List IndexUnit) (u : IndexUnit) :
    found f keyHash beginTime endTime (us ++ [u]) =
      found f keyHash beginTime endTime us ++
        if isHit f keyHash beginTime endTime u then [u.phyOffset] else [] := by
  unfold found
  rw [List.filter_append, List.map_append]
  by_cases h : isHit f keyHash beginTime endTime u <;> simp [h]

lemma mem_found {us : List IndexUnit} {u : IndexUnit} (hu : u ∈ us)
    (hhit : isHit f keyHash beginTime endTime u) :
    u.phyOffset ∈ found f keyHash beginTime endTime us :=
  List.mem_map_of_mem (List.mem_filter.mpr ⟨hu, hhit⟩)

lemma keyHash_of_isHit {u : IndexUnit} (h : isHit f keyHash beginTime endTime u) :
    keyHash = u.keyHash ∧ beginTime ≤ timeRead f u ∧ timeRead f u ≤ endTime := by
  simpa [isHit, and_assoc] using h

lemma mem_drop_snoc {k : ℕ} {us : List IndexUnit} {u v : IndexUnit} (h : v ∈ (us ++ [u]).drop k) :
    k ≤ us.length ∧ (v ∈ us.drop k ∨ v = u) := by
  have hk : k ≤ us.length := by
    by_contra hlt
    rw [List.drop_eq_nil_of_le (by simp; omega)] at h
    exact absurd h (List.not_mem_nil)
  rw [List.drop_append_of_le_length hk] at h
  exact ⟨hk, by simpa using h⟩

lemma readIndex_snoc {us rest : List IndexUnit} {u : IndexUnit}
    (hsplit : f.indexes = (us ++ [u]) ++ rest) (hfits : f.indexes.length < cfg.indexNum) :
    readIndex cfg f (us.length + 1) = some u := by
  have hlen : f.indexes.length = us.length + 1 + rest.length := by simp [hsplit]; omega
  have hget : f.indexes[us.length]? = some u := by simp [hsplit]
  simp [readIndex, hget, show us.length + 1 < cfg.indexNum by omega]

/-- What the loop gives from a number of the file on: some of the hits among the entries up to
there, and with room for all of them every hit from the `k`-th on. -/
def Walked (cfg : Config) (f : IndexFile) (k : ℕ) (keyHash maxNum : Int32)
    (beginTime endTime : Int64) (us : List IndexUnit) (next : ℕ) : Prop :=
  ∀ (rest : List IndexUnit) (phyOffsets : List Int64) (fuel : ℕ), f.indexes = us ++ rest →
    us.length ≤ fuel → ∃ L,
      selectLoop cfg f keyHash maxNum beginTime endTime fuel next phyOffsets =
        some (phyOffsets ++ L) ∧
      L.Sublist (found f keyHash beginTime endTime us).reverse ∧
      (phyOffsets.length + (found f keyHash beginTime endTime us).length ≤ maxNum.toInt →
        ∀ u ∈ us.drop k, isHit f keyHash beginTime endTime u → u.phyOffset ∈ L)

lemma selectLoop_walked {k : ℕ} (h : Readable cfg k f) (keyHash maxNum : Int32)
    (beginTime endTime : Int64) :
    (lastIn (slotOf cfg) (slotPos cfg keyHash) f.indexes = 0 →
        found f keyHash beginTime endTime f.indexes = []) ∧
      (lastIn (slotOf cfg) (slotPos cfg keyHash) f.indexes ≠ 0 →
        Walked cfg f k keyHash maxNum beginTime endTime f.indexes
          (lastIn (slotOf cfg) (slotPos cfg keyHash) f.indexes)) := by
  have hwalk := h.linked.walk (p := slotPos cfg keyHash)
    (motive := fun us next => next ≤ us.length ∧
      (next = 0 → found f keyHash beginTime endTime us = []) ∧
      (next ≠ 0 → Walked cfg f k keyHash maxNum beginTime endTime us next)) ?_ ?_ ?_
  · exact hwalk.2
  · exact ⟨le_rfl, fun _ => rfl, fun hne => absurd rfl hne⟩
  · -- an entry of another slot is no hit
    intro us u hslot ⟨hle, hzero, hne⟩
    have hmiss : ¬ isHit f keyHash beginTime endTime u := fun hhit =>
      hslot (congrArg (slotPos cfg) (keyHash_of_isHit hhit).1.symm)
    have hfound : found f keyHash beginTime endTime (us ++ [u]) =
        found f keyHash beginTime endTime us := by simp [found_snoc, hmiss]
    refine ⟨by simp; omega, fun h0 => hfound.trans (hzero h0), fun h0 => ?_⟩
    intro rest phyOffsets fuel hsplit hfuel
    obtain ⟨L, hL, hsub, hall⟩ := hne h0 (u :: rest) phyOffsets fuel (by simp [hsplit])
      (by simp at hfuel; omega)
    refine ⟨L, hL, hfound ▸ hsub, fun hroom v hv hhit => ?_⟩
    rcases (mem_drop_snoc hv).2 with hv | rfl
    · exact hall (hfound ▸ hroom) v hv hhit
    · exact absurd hhit hmiss
  · intro us u _ ⟨hle, hzero, hne⟩
    refine ⟨by simp, fun h0 => absurd h0 (by omega), fun _ => ?_⟩
    intro rest phyOffsets fuel hsplit hfuel
    obtain ⟨fuel, rfl⟩ : ∃ n, fuel = n + 1 := ⟨fuel - 1, by simp at hfuel; omega⟩
    rw [selectLoop, readIndex_snoc hsplit h.fits]
    have hcount : us.length < f.indexCount := by simp [IndexFile.indexCount, hsplit]
    -- an entry counts from the `k`-th on
    have hin : ∀ v ∈ (us ++ [u]).drop k, u ∈ f.indexes.drop k ∧
        (v ∈ us.drop k → timeRead f v ≤ timeRead f u) := by
      intro v hv
      have hk := (mem_drop_snoc hv).1
      have hdrop : f.indexes.drop k = us.drop k ++ u :: rest := by
        rw [hsplit, List.append_assoc, List.drop_append_of_le_length hk]
        rfl
      refine ⟨by simp [hdrop], fun hmem => ?_⟩
      have hsorted := h.sorted
      rw [hdrop] at hsorted
      exact (List.pairwise_append.mp hsorted).2.2 v hmem u List.mem_cons_self
    by_cases hfull : maxNum.toInt ≤ phyOffsets.length
    · refine ⟨[], by simp [hfull], List.nil_sublist _, fun hroom v hv hhit => ?_⟩
      have hpos := List.length_pos_of_mem (mem_found (List.mem_of_mem_drop hv) hhit)
      omega
    simp only [if_neg hfull]
    by_cases hneg : u.timeDiff < 0
    · refine ⟨[], by simp [hneg], List.nil_sublist _, fun _ v hv _ => ?_⟩
      exact absurd hneg (h.nonneg u (hin v hv).1)
    simp only [if_neg hneg]
    obtain ⟨A, hA⟩ : ∃ A, A = if isHit f keyHash beginTime endTime u then [u.phyOffset] else [] :=
      ⟨_, rfl⟩
    have hadd : (if isHit f keyHash beginTime endTime u then phyOffsets ++ [u.phyOffset]
        else phyOffsets) = phyOffsets ++ A := by
      rw [hA]
      split <;> simp
    have hAmem : isHit f keyHash beginTime endTime u → u.phyOffset ∈ A := fun hhit => by
      simp [hA, hhit]
    have hfound : found f keyHash beginTime endTime (us ++ [u]) =
        found f keyHash beginTime endTime us ++ A := by rw [found_snoc, hA]
    have hrev : (found f keyHash beginTime endTime (us ++ [u])).reverse =
        A ++ (found f keyHash beginTime endTime us).reverse := by
      rw [hfound, List.reverse_append, hA]
      split <;> rfl
    rw [hadd, hrev]
    by_cases hstop : u.slotValue = 0 ∨ f.indexCount < u.slotValue ∨ u.slotValue = us.length + 1 ∨
        timeRead f u < beginTime
    · refine ⟨A, by simp [hstop], List.sublist_append_left _ _, fun _ v hv hhit => ?_⟩
      rcases (mem_drop_snoc hv).2 with hmem | rfl
      · -- none of the earlier entries is a hit
        exfalso
        rcases hstop with h0 | hlt | heq | hearly
        · have := mem_found (List.mem_of_mem_drop hmem) hhit
          rw [hzero h0] at this
          exact List.not_mem_nil this
        · omega
        · omega
        · have hbegin := (keyHash_of_isHit hhit).2.1
          have hle := (hin v hv).2 hmem
          exact Int64.lt_irrefl (Int64.lt_of_le_of_lt (Int64.le_trans hbegin hle) hearly)
      · exact hAmem hhit
    · simp only [if_neg hstop]
      have h0 : u.slotValue ≠ 0 := fun h0 => hstop (.inl h0)
      obtain ⟨L, hL, hsub, hall⟩ := hne h0 (u :: rest) (phyOffsets ++ A) fuel
        (by simp [hsplit]) (by simp at hfuel; omega)
      refine ⟨A ++ L, by rw [hL, List.append_assoc], hsub.append_left A, fun hroom v hv hhit => ?_⟩
      rcases (mem_drop_snoc hv).2 with hmem | rfl
      · refine List.mem_append_right A (hall ?_ v hmem hhit)
        rw [hfound, List.length_append] at hroom
        rw [List.length_append]
        omega
      · exact List.mem_append_left L (hAmem hhit)

/-- What a file gives. -/
lemma selectPhyOffset_spec {k fuel : ℕ} (h : Readable cfg k f) (hfuel : f.indexes.length ≤ fuel)
    (phyOffsets : List Int64) (key : Text) (maxNum : Int32) (beginTime endTime : Int64) :
    ∃ L, selectPhyOffset cfg f fuel phyOffsets key maxNum beginTime endTime =
        some (phyOffsets ++ L) ∧
      L.Sublist (found f (IndexFile.indexKeyHashMethod key) beginTime endTime f.indexes).reverse ∧
      (phyOffsets.length + (found f (IndexFile.indexKeyHashMethod key) beginTime endTime
          f.indexes).length ≤ maxNum.toInt →
        ∀ u ∈ f.indexes.drop k, isHit f (IndexFile.indexKeyHashMethod key) beginTime endTime u →
          u.phyOffset ∈ L) := by
  have hslot := h.slots (slotPos cfg (IndexFile.indexKeyHashMethod key))
  obtain ⟨hzero, hne⟩ :=
    selectLoop_walked h (IndexFile.indexKeyHashMethod key) maxNum beginTime endTime
  rw [← hslot] at hzero hne
  have hle := hslot.trans_le (lastIn_le _ _ _)
  unfold selectPhyOffset
  by_cases h0 : f.slots (slotPos cfg (IndexFile.indexKeyHashMethod key)) = 0
  · refine ⟨[], by simp [h0], List.nil_sublist _, fun _ u hu hhit => ?_⟩
    have := mem_found (List.mem_of_mem_drop hu) hhit
    rw [hzero h0] at this
    exact absurd this List.not_mem_nil
  · have hgo : ¬ (f.slots (slotPos cfg (IndexFile.indexKeyHashMethod key)) = 0 ∨
        f.indexCount < f.slots (slotPos cfg (IndexFile.indexKeyHashMethod key)) ∨
        f.indexCount ≤ 1) := by
      unfold IndexFile.indexCount
      omega
    simp only [if_neg hgo]
    exact hne h0 [] phyOffsets fuel (by simp) hfuel

end Select

/-! ### What a file holds -/

/-- Times are positive, do not fall, and are less than `2 ^ 31` seconds apart. -/
structure Timed (ps : List Put) : Prop where
  pos : ∀ p ∈ ps, 0 < time p
  sorted : ps.Pairwise fun p q => time p ≤ time q
  span : ∀ p ∈ ps, ∀ q ∈ ps, time q - time p < 2 ^ 31 * 1000

lemma Timed.sublist {ps qs : List Put} (h : Timed qs) (hsub : ps.Sublist qs) : Timed ps :=
  ⟨fun p hp => h.pos p (hsub.subset hp), h.sorted.sublist hsub,
    fun p hp q hq => h.span p (hsub.subset hp) q (hsub.subset hq)⟩

/-- What an entry holds of a put, in a file that begins at the given time. -/
def unitOf (beginTimestamp : Int64) (p : Put) : Int32 × Int64 × ℤ :=
  (hash p, offset p, (time p - beginTimestamp.toInt) / 1000)

/-- The entries of a file are those of the puts, and the times from the `k`-th on are right. -/
structure Filled (cfg : Config) (k : ℕ) (f : IndexFile) (ps : List Put) : Prop where
  linked : Linked (slotOf cfg) IndexUnit.slotValue f.indexes
  slots : ∀ p, f.slots p = lastIn (slotOf cfg) p f.indexes
  fits : f.indexes.length < cfg.indexNum
  units : f.indexes.map (fun u => (u.keyHash, u.phyOffset)) = ps.map fun p => (hash p, offset p)
  times : (f.indexes.drop k).map (fun u => (u.keyHash, u.phyOffset, u.timeDiff.toInt)) =
    (ps.drop k).map (unitOf f.beginTimestamp)
  bounds : ∀ p ∈ ps, f.beginTimestamp.toInt ≤ time p ∧ time p ≤ f.endTimestamp.toInt
  begins : ps ≠ [] → ∃ p ∈ ps, f.beginTimestamp.toInt = time p
  fresh : k = 0 → ps = [] → f.beginTimestamp = 0

lemma toInt_timeDiff {beginTimestamp storeTimestamp : Int64} (hpos : 0 < beginTimestamp.toInt)
    (hle : beginTimestamp.toInt ≤ storeTimestamp.toInt)
    (hspan : storeTimestamp.toInt - beginTimestamp.toInt < 2 ^ 31 * 1000) :
    (IndexFile.timeDiff beginTimestamp storeTimestamp).toInt =
      (storeTimestamp.toInt - beginTimestamp.toInt) / 1000 := by
  have hlt := storeTimestamp.toInt_lt
  have hsub : (storeTimestamp - beginTimestamp).toInt =
      storeTimestamp.toInt - beginTimestamp.toInt := by
    rw [Int64.toInt_sub]
    exact Int.bmod_eq_of_le (by omega) (by omega)
  have hdiv : ((storeTimestamp - beginTimestamp) / 1000).toInt =
      (storeTimestamp.toInt - beginTimestamp.toInt) / 1000 := by
    rw [Int64.toInt_div, hsub, show (1000 : Int64).toInt = 1000 from rfl,
      Int.tdiv_eq_ediv_of_nonneg (by omega)]
    exact Int.bmod_eq_of_le (by omega) (by omega)
  have hmax : ¬ Int32.maxValue.toInt64 < (storeTimestamp - beginTimestamp) / 1000 := by
    rw [Int64.lt_iff_toInt_lt, hdiv, show Int32.maxValue.toInt64.toInt = 2147483647 from rfl]
    omega
  have hneg : ¬ (storeTimestamp - beginTimestamp) / 1000 < 0 := by
    rw [Int64.lt_iff_toInt_lt, hdiv, show (0 : Int64).toInt = 0 from rfl]
    omega
  have hbegin : ¬ beginTimestamp ≤ 0 := by
    rw [Int64.le_iff_toInt_le, show (0 : Int64).toInt = 0 from rfl]
    omega
  unfold IndexFile.timeDiff
  simp only [if_neg hbegin, if_neg hmax, if_neg hneg]
  rw [Int64.toInt_toInt32, hdiv]
  exact Int.bmod_eq_of_le (by omega) (by omega)

lemma toInt_timeRead {f : IndexFile} {u : IndexUnit} {t : ℤ} (hpos : 0 < f.beginTimestamp.toInt)
    (hle : f.beginTimestamp.toInt ≤ t) (hlt : t < 2 ^ 63)
    (hdiff : u.timeDiff.toInt = (t - f.beginTimestamp.toInt) / 1000) :
    (timeRead f u).toInt =
      f.beginTimestamp.toInt + (t - f.beginTimestamp.toInt) / 1000 * 1000 := by
  have hmul : (u.timeDiff.toInt64 * 1000).toInt = (t - f.beginTimestamp.toInt) / 1000 * 1000 := by
    rw [Int64.toInt_mul, Int32.toInt_toInt64, hdiff, show (1000 : Int64).toInt = 1000 from rfl]
    exact Int.bmod_eq_of_le (by omega) (by omega)
  unfold timeRead
  rw [Int64.toInt_add, hmul]
  exact Int.bmod_eq_of_le (by omega) (by omega)

section File

variable {cfg : Config} {k : ℕ} {f : IndexFile} {ps : List Put}

lemma time_lt (p : Put) : time p < 2 ^ 63 := p.1.storeTimestamp.toInt_lt

lemma Filled.length_eq (h : Filled cfg k f ps) : f.indexes.length = ps.length := by
  simpa using congrArg List.length h.units

lemma Filled.begin_pos (h : Filled cfg k f ps) (ht : Timed ps) (hne : ps ≠ []) :
    0 < f.beginTimestamp.toInt := by
  obtain ⟨p, hp, heq⟩ := h.begins hne
  rw [heq]
  exact ht.pos p hp

lemma Filled.toInt_timeRead (h : Filled cfg k f ps) (ht : Timed ps) {u : IndexUnit} {p : Put}
    (hp : p ∈ ps) (hu : (u.keyHash, u.phyOffset, u.timeDiff.toInt) = unitOf f.beginTimestamp p) :
    (timeRead f u).toInt =
      f.beginTimestamp.toInt + (time p - f.beginTimestamp.toInt) / 1000 * 1000 := by
  simp only [unitOf, Prod.mk.injEq] at hu
  exact QueryCompleteness.toInt_timeRead (h.begin_pos ht (List.ne_nil_of_mem hp)) (h.bounds p hp).1
    (time_lt p) hu.2.2

/-- An entry is read within the second before its put. -/
lemma Filled.read (h : Filled cfg k f ps) (ht : Timed ps) {u : IndexUnit} {p : Put} (hp : p ∈ ps)
    (hu : (u.keyHash, u.phyOffset, u.timeDiff.toInt) = unitOf f.beginTimestamp p) :
    u.keyHash = hash p ∧ u.phyOffset = offset p ∧ (timeRead f u).toInt ≤ time p ∧
      time p < (timeRead f u).toInt + 1000 := by
  have hread := h.toInt_timeRead ht hp hu
  simp only [unitOf, Prod.mk.injEq] at hu
  exact ⟨hu.1, hu.2.1, by omega, by omega⟩

lemma Filled.put_of_unit (h : Filled cfg k f ps) {u : IndexUnit} (hu : u ∈ f.indexes.drop k) :
    ∃ p ∈ ps.drop k, (u.keyHash, u.phyOffset, u.timeDiff.toInt) = unitOf f.beginTimestamp p := by
  have hmem := List.mem_map_of_mem (f := fun u : IndexUnit =>
    (u.keyHash, u.phyOffset, u.timeDiff.toInt)) hu
  rw [h.times] at hmem
  obtain ⟨p, hp, heq⟩ := List.mem_map.mp hmem
  exact ⟨p, hp, heq.symm⟩

lemma Filled.unit_of_put (h : Filled cfg k f ps) {p : Put} (hp : p ∈ ps.drop k) :
    ∃ u ∈ f.indexes.drop k,
      (u.keyHash, u.phyOffset, u.timeDiff.toInt) = unitOf f.beginTimestamp p := by
  have hmem := List.mem_map_of_mem (f := unitOf f.beginTimestamp) hp
  rw [← h.times] at hmem
  obtain ⟨u, hu, heq⟩ := List.mem_map.mp hmem
  exact ⟨u, hu, heq⟩

lemma Filled.readable (h : Filled cfg k f ps) (ht : Timed ps) : Readable cfg k f where
  linked := h.linked
  slots := h.slots
  fits := h.fits
  nonneg u hu hneg := by
    obtain ⟨p, hp, heq⟩ := h.put_of_unit hu
    have hle := (h.bounds p (List.mem_of_mem_drop hp)).1
    simp only [unitOf, Prod.mk.injEq] at heq
    rw [Int32.lt_iff_toInt_lt, heq.2.2, show (0 : Int32).toInt = 0 from rfl] at hneg
    omega
  sorted := by
    -- the differences do not fall, and the entries have them
    have hdiffs : ((ps.drop k).map (unitOf f.beginTimestamp)).Pairwise
        fun a b => a.2.2 ≤ b.2.2 := by
      rw [List.pairwise_map]
      refine (ht.sorted.sublist (List.drop_sublist k ps)).imp fun hle => ?_
      exact Int.ediv_le_ediv (by decide) (by omega)
    rw [← h.times, List.pairwise_map] at hdiffs
    refine hdiffs.imp_of_mem fun {u v} hu hv hle => ?_
    obtain ⟨p, hp, hup⟩ := h.put_of_unit hu
    obtain ⟨q, hq, hvq⟩ := h.put_of_unit hv
    have hpu := h.toInt_timeRead ht (List.mem_of_mem_drop hp) hup
    have hqv := h.toInt_timeRead ht (List.mem_of_mem_drop hq) hvq
    simp only [unitOf, Prod.mk.injEq] at hup hvq hle
    rw [Int64.le_iff_toInt_le]
    omega

/-- What a query finds in a file. -/
lemma Filled.select_spec (h : Filled cfg k f ps) (ht : Timed ps) {fuel : ℕ}
    (hfuel : cfg.indexNum ≤ fuel) (phyOffsets : List Int64) (key : Text) (maxNum : Int32)
    (beginTime endTime : Int64) :
    ∃ L, selectMatched cfg f fuel phyOffsets key maxNum beginTime endTime =
        some (phyOffsets ++ L) ∧
      L.Sublist (found f (IndexFile.indexKeyHashMethod key) beginTime endTime f.indexes).reverse ∧
      (phyOffsets.length + (found f (IndexFile.indexKeyHashMethod key) beginTime endTime
          f.indexes).length ≤ maxNum.toInt →
        ∀ p ∈ ps.drop k, hash p = IndexFile.indexKeyHashMethod key →
          beginTime.toInt + 1000 ≤ time p → time p ≤ endTime.toInt → offset p ∈ L) := by
  unfold selectMatched
  by_cases hmatch : isTimeMatched f beginTime endTime
  · obtain ⟨L, hL, hsub, hall⟩ := selectPhyOffset_spec (h.readable ht) (h.fits.le.trans hfuel)
      phyOffsets key maxNum beginTime endTime
    refine ⟨L, by rw [if_pos hmatch, hL], hsub, fun hroom p hp hhash hbegin hend => ?_⟩
    obtain ⟨u, hu, heq⟩ := h.unit_of_put hp
    obtain ⟨hkey, hoff, hlow, hhigh⟩ := h.read ht (List.mem_of_mem_drop hp) heq
    have hhit : isHit f (IndexFile.indexKeyHashMethod key) beginTime endTime u := by
      simp only [isHit, Bool.and_eq_true, decide_eq_true_eq, Int64.le_iff_toInt_le]
      exact ⟨⟨by rw [hkey, hhash], by omega⟩, by omega⟩
    exact hoff ▸ hall hroom u hu hhit
  · -- the interval lies before the file or behind it
    refine ⟨[], by simp [hmatch], List.nil_sublist _, fun _ p hp _ hbegin hend => ?_⟩
    have hbounds := h.bounds p (List.mem_of_mem_drop hp)
    refine absurd ?_ hmatch
    simp only [isTimeMatched, Bool.or_eq_true, decide_eq_true_eq, Int64.le_iff_toInt_le,
      Int64.lt_iff_toInt_lt]
    omega

/-- A new file, behind a file that was written. -/
lemma filled_newFile (hnum : 0 < cfg.indexNum) (endPhyOffset endTimestamp : Int64) :
    Filled cfg 1 (IndexFile.newFile endPhyOffset endTimestamp) [] where
  linked := .nil
  slots _ := rfl
  fits := hnum
  units := rfl
  times := rfl
  bounds _ hp := absurd hp List.not_mem_nil
  begins hne := absurd rfl hne
  fresh h1 := absurd h1 one_ne_zero

/-- The first file. -/
lemma filled_first (hnum : 0 < cfg.indexNum) : Filled cfg 0 (IndexFile.newFile 0 0) [] :=
  ⟨.nil, fun _ => rfl, hnum, rfl, rfl, fun _ hp => absurd hp List.not_mem_nil,
    fun hne => absurd rfl hne, fun _ _ => rfl⟩

/-- What `putKey` writes. -/
structure Written (cfg : Config) (f f' : IndexFile) (p : Put) (u : IndexUnit) : Prop where
  room : f.indexes.length + 1 < cfg.indexNum
  indexes : f'.indexes = f.indexes ++ [u]
  keyHash : u.keyHash = hash p
  phyOffset : u.phyOffset = offset p
  timeDiff : u.timeDiff = IndexFile.timeDiff f.beginTimestamp p.1.storeTimestamp
  slotValue : u.slotValue = lastIn (slotOf cfg) (slotOf cfg u) f.indexes
  slots : ∀ q, f'.slots q = if slotOf cfg u = q then f.indexes.length + 1 else f.slots q
  beginTimestamp : f'.beginTimestamp =
    if f.indexes = [] then p.1.storeTimestamp else f.beginTimestamp
  endTimestamp : f'.endTimestamp = p.1.storeTimestamp
  endPhyOffset : f'.endPhyOffset = offset p

lemma written_putKey (hslots : ∀ q, f.slots q = lastIn (slotOf cfg) q f.indexes) {p : Put}
    {f' : IndexFile}
    (hput : f.putKey cfg (buildKey p.1.topic p.2) p.1.commitLogOffset p.1.storeTimestamp =
      some f') : ∃ u, Written cfg f f' p u := by
  unfold IndexFile.putKey at hput
  split at hput
  case isFalse => exact absurd hput (by simp)
  rename_i hroom
  have hslot : ¬ f.indexCount < f.slots (slotPos cfg (hash p)) := by
    have := lastIn_le (slotOf cfg) (slotPos cfg (hash p)) f.indexes
    rw [← hslots] at this
    unfold IndexFile.indexCount
    omega
  obtain rfl := Option.some.inj hput
  refine ⟨⟨hash p, offset p, IndexFile.timeDiff f.beginTimestamp p.1.storeTimestamp,
    if f.indexCount < f.slots (slotPos cfg (hash p)) then 0 else f.slots (slotPos cfg (hash p))⟩, ?_⟩
  exact {
    room := hroom
    indexes := rfl
    keyHash := rfl
    phyOffset := rfl
    timeDiff := rfl
    slotValue := (if_neg hslot).trans (hslots _)
    slots := fun q => by
      simp only [Function.update_apply, slotOf, slotPos, hash]
      exact if_congr eq_comm rfl rfl
    beginTimestamp := by
      by_cases hnil : f.indexes = [] <;> simp [IndexFile.indexCount, hnil]
    endTimestamp := rfl
    endPhyOffset := rfl }

/-- A put that the file has room for. -/
lemma Filled.put (h : Filled cfg k f ps) {p : Put} (ht : Timed (ps ++ [p]))
    {f' : IndexFile} {u : IndexUnit} (hw : Written cfg f f' p u) : Filled cfg k f' (ps ++ [p]) := by
  have hps : Timed ps := ht.sublist (List.sublist_append_left _ _)
  have hlater : ∀ q ∈ ps, time q ≤ time p := fun q hq =>
    (List.pairwise_append.mp ht.sorted).2.2 q hq p (List.mem_singleton_self p)
  have hlen := h.length_eq
  have hend : f'.endTimestamp.toInt = time p := congrArg Int64.toInt hw.endTimestamp
  have hnil : f.indexes = [] ↔ ps = [] := by
    rw [← List.length_eq_zero_iff, ← List.length_eq_zero_iff, hlen]
  -- where the file begins
  have hfirst : ps = [] → f'.beginTimestamp.toInt = time p := fun h0 => by
    rw [hw.beginTimestamp, if_pos (hnil.mpr h0)]
    rfl
  have hkept : ps ≠ [] → f'.beginTimestamp = f.beginTimestamp := fun h0 => by
    rw [hw.beginTimestamp, if_neg (mt hnil.mp h0)]
  -- the difference is right where it counts
  have hdiff : k ≤ ps.length → (u.keyHash, u.phyOffset, u.timeDiff.toInt) =
      unitOf f'.beginTimestamp p := by
    intro hle
    rw [unitOf, hw.keyHash, hw.phyOffset, hw.timeDiff]
    by_cases h0 : ps = []
    · have hk0 : k = 0 := by simpa [h0] using hle
      rw [hfirst h0, h.fresh hk0 h0, sub_self]
      rfl
    · obtain ⟨q, hq, hbegin⟩ := h.begins h0
      rw [hkept h0, toInt_timeDiff (h.begin_pos hps h0) (hbegin.trans_le (hlater q hq))]
      · rfl
      · rw [hbegin]
        exact ht.span q (List.mem_append_left _ hq) p (by simp)
  refine ⟨?_, fun q => ?_, ?_, ?_, ?_, fun q hq => ?_, fun _ => ?_, fun _ h0 => ?_⟩
  · rw [hw.indexes]
    exact .snoc h.linked hw.slotValue
  · rw [hw.slots, hw.indexes, lastIn_snoc, h.slots]
  · rw [hw.indexes, List.length_append]
    exact hw.room
  · rw [hw.indexes, List.map_append, List.map_append, h.units, List.map_singleton,
      List.map_singleton, hw.keyHash, hw.phyOffset]
  · rw [hw.indexes]
    by_cases hle : k ≤ ps.length
    · rw [List.drop_append_of_le_length (hlen ▸ hle), List.drop_append_of_le_length hle,
        List.map_append, List.map_append, h.times, List.map_singleton, List.map_singleton,
        hdiff hle]
      by_cases h0 : ps = []
      · simp [h0]
      · rw [hkept h0]
    · rw [List.drop_eq_nil_of_le (by simp; omega), List.drop_eq_nil_of_le (by simp; omega)]
      rfl
  · rcases List.mem_append.mp hq with hq | hq
    · rw [hkept (List.ne_nil_of_mem hq), hend]
      exact ⟨(h.bounds q hq).1, hlater q hq⟩
    · obtain rfl := List.mem_singleton.mp hq
      refine ⟨?_, hend.ge⟩
      by_cases h0 : ps = []
      · exact (hfirst h0).le
      · obtain ⟨p', hp', hbegin⟩ := h.begins h0
        rw [hkept h0, hbegin]
        exact hlater p' hp'
  · by_cases h0 : ps = []
    · exact ⟨p, by simp, hfirst h0⟩
    · obtain ⟨q, hq, hbegin⟩ := h.begins h0
      exact ⟨q, List.mem_append_left _ hq, by rw [hkept h0, hbegin]⟩
  · exact absurd h0 (by simp)

end File

/-! ### All files -/

/-- The files hold the entries of the puts `ps`; those of `gs` are read with the right times. -/
inductive Built (cfg : Config) : List IndexFile → List Put → List Put → Prop
  | nil : Built cfg [] [] []
  | first {f : IndexFile} {ps : List Put} (h : Filled cfg 0 f ps) : Built cfg [f] ps ps
  | roll {files : List IndexFile} {f : IndexFile} {ps gs qs : List Put}
      (hfiles : Built cfg files ps gs) (hne : files ≠ []) (h : Filled cfg 1 f qs)
      (hle : ∀ p ∈ ps, time p ≤ f.beginTimestamp.toInt) :
      Built cfg (files ++ [f]) (ps ++ qs) (gs ++ qs.drop 1)

section Files

variable {cfg : Config} {files : List IndexFile} {ps gs : List Put}

lemma hits_snoc (f : IndexFile) (keyHash : Int32) (beginTime endTime : Int64) :
    hits (files ++ [f]) keyHash beginTime endTime =
      hits files keyHash beginTime endTime ++ found f keyHash beginTime endTime f.indexes := by
  simp [hits]

lemma unshifted_snoc (hne : files ≠ []) (f : IndexFile) :
    unshifted (files ++ [f]) = unshifted files ++ f.indexes.tail := by
  cases files with
  | nil => exact absurd rfl hne
  | cons f' fs => simp [unshifted]

/-- The entries are those of the puts, in their order. -/
lemma Built.entries_eq (h : Built cfg files ps gs) :
    (entries files).map (fun u => (u.keyHash, u.phyOffset)) =
      ps.map fun p => (hash p, offset p) := by
  induction h with
  | nil => rfl
  | first h => simpa [entries] using h.units
  | roll _ _ h _ ih =>
    rw [IndexCompleteness.entries_append, IndexCompleteness.entries_singleton, List.map_append,
      List.map_append, ih, h.units]

lemma Built.unshifted_eq (h : Built cfg files ps gs) :
    (unshifted files).map (fun u => (u.keyHash, u.phyOffset)) =
      gs.map fun p => (hash p, offset p) := by
  induction h with
  | nil => rfl
  | first h => simpa [unshifted] using h.units
  | @roll files f ps gs qs _ hne h _ ih =>
    rw [unshifted_snoc hne, List.map_append, List.map_append, ih, ← List.drop_one, List.map_drop,
      h.units, List.map_drop]

lemma Built.sublist (h : Built cfg files ps gs) : gs.Sublist ps := by
  induction h with
  | nil => exact .slnil
  | first => exact List.Sublist.refl _
  | roll _ _ _ _ ih => exact ih.append (List.drop_sublist 1 _)

/-- An entry comes from a put. It is read within the second before, or it is the first one of a
file behind the first file. -/
lemma Built.put_of_entry (h : Built cfg files ps gs) (ht : Timed ps) :
    ∀ f ∈ files, ∀ u ∈ f.indexes, ∃ p ∈ ps, u.keyHash = hash p ∧ u.phyOffset = offset p ∧
      ((timeRead f u).toInt ≤ time p ∧ time p < (timeRead f u).toInt + 1000 ∨
        f ∈ files.tail ∧ f.indexes.head? = some u) := by
  induction h with
  | nil => exact fun f hf => absurd hf List.not_mem_nil
  | @first f ps h =>
    intro f' hf u hu
    obtain rfl := List.mem_singleton.mp hf
    obtain ⟨p, hp, heq⟩ := h.put_of_unit hu
    obtain ⟨hkey, hoff, htime⟩ := h.read ht hp heq
    exact ⟨p, hp, hkey, hoff, .inl htime⟩
  | @roll files f ps gs qs _ hne h _ ih =>
    intro f' hf u hu
    have htail : (files ++ [f]).tail = files.tail ++ [f] := List.tail_append_of_ne_nil hne
    rcases List.mem_append.mp hf with hf | hf
    · obtain ⟨p, hp, hkey, hoff, hread⟩ := ih (ht.sublist (List.sublist_append_left _ _)) f' hf u hu
      refine ⟨p, List.mem_append_left _ hp, hkey, hoff, hread.imp_right fun hhead => ?_⟩
      exact ⟨htail ▸ List.mem_append_left _ hhead.1, hhead.2⟩
    · obtain rfl := List.mem_singleton.mp hf
      cases hidx : f'.indexes with
      | nil => exact absurd (hidx ▸ hu) List.not_mem_nil
      | cons v us =>
        rcases List.mem_cons.mp (hidx ▸ hu) with rfl | hmem
        · have hunit : (u.keyHash, u.phyOffset) ∈ qs.map fun p => (hash p, offset p) := by
            rw [← h.units]
            exact List.mem_map_of_mem hu
          obtain ⟨p, hp, heq⟩ := List.mem_map.mp hunit
          simp only [Prod.mk.injEq] at heq
          exact ⟨p, List.mem_append_right _ hp, heq.1.symm, heq.2.symm,
            .inr ⟨htail ▸ List.mem_append_right _ (List.mem_singleton_self _), rfl⟩⟩
        · have hdrop : u ∈ f'.indexes.drop 1 := by simpa [hidx] using hmem
          obtain ⟨p, hp, heq⟩ := h.put_of_unit hdrop
          have hp := List.mem_of_mem_drop hp
          obtain ⟨hkey, hoff, htime⟩ :=
            h.read (ht.sublist (List.sublist_append_right _ _)) hp heq
          exact ⟨p, List.mem_append_right _ hp, hkey, hoff, .inl htime⟩

/-- What a query finds. -/
lemma Built.query_spec (h : Built cfg files ps gs) (ht : Timed ps) {fuel : ℕ}
    (hfuel : cfg.indexNum ≤ fuel) (key : Text) (maxNum : Int32) (beginTime endTime : Int64)
    (phyOffsets : List Int64) :
    ∃ L, queryLoop cfg fuel key maxNum beginTime endTime files.reverse phyOffsets =
        some (phyOffsets ++ L) ∧
      L.Sublist (hits files (IndexFile.indexKeyHashMethod key) beginTime endTime).reverse ∧
      (phyOffsets.length + (hits files (IndexFile.indexKeyHashMethod key) beginTime endTime).length
          ≤ maxNum.toInt →
        ∀ p ∈ gs, hash p = IndexFile.indexKeyHashMethod key →
          beginTime.toInt + 1000 ≤ time p → time p ≤ endTime.toInt → offset p ∈ L) := by
  induction h generalizing phyOffsets with
  | nil =>
    exact ⟨[], by simp [queryLoop], List.nil_sublist _, fun _ p hp => absurd hp List.not_mem_nil⟩
  | @first f ps h =>
    obtain ⟨L, hL, hsub, hall⟩ := h.select_spec ht hfuel phyOffsets key maxNum beginTime endTime
    have hhits : hits [f] (IndexFile.indexKeyHashMethod key) beginTime endTime =
        found f (IndexFile.indexKeyHashMethod key) beginTime endTime f.indexes := by simp [hits]
    rw [hhits]
    refine ⟨L, ?_, hsub, hall⟩
    simp [queryLoop, hL]
  | @roll files f ps gs qs hfiles hne h hle ih =>
    obtain ⟨L, hL, hsub, hall⟩ := h.select_spec (ht.sublist (List.sublist_append_right _ _)) hfuel
      phyOffsets key maxNum beginTime endTime
    obtain ⟨L', hL', hsub', hall'⟩ := ih (ht.sublist (List.sublist_append_left _ _))
      (phyOffsets ++ L)
    have hlen := hsub.length_le
    rw [List.length_reverse] at hlen
    rw [List.reverse_append, List.reverse_singleton, List.singleton_append, hits_snoc,
      List.reverse_append, queryLoop, hL]
    simp only [Option.bind_eq_bind, Option.bind_some]
    by_cases hearly : f.beginTimestamp < beginTime
    · refine ⟨L, if_pos hearly, hsub.trans (List.sublist_append_left _ _), ?_⟩
      intro hroom p hp hhash hbegin hend
      rw [List.length_append] at hroom
      rcases List.mem_append.mp hp with hp | hp
      · -- the files in front hold nothing that is late enough
        have hp := hle p (hfiles.sublist.subset hp)
        rw [Int64.lt_iff_toInt_lt] at hearly
        omega
      · exact hall (by omega) p hp hhash hbegin hend
    · rw [if_neg hearly]
      by_cases hfull : maxNum.toInt ≤ (phyOffsets ++ L).length
      · refine ⟨L, if_pos hfull, hsub.trans (List.sublist_append_left _ _), ?_⟩
        intro hroom p hp hhash hbegin hend
        rw [List.length_append] at hroom hfull
        rcases List.mem_append.mp hp with hp | hp
        · -- the files in front hold no hit
          have hin := hall' (by rw [List.length_append]; omega) p hp hhash hbegin hend
          have hpos := (List.length_pos_of_mem hin).trans_le hsub'.length_le
          rw [List.length_reverse] at hpos
          omega
        · exact hall (by omega) p hp hhash hbegin hend
      · refine ⟨L ++ L', by rw [if_neg hfull, hL', List.append_assoc], hsub.append hsub', ?_⟩
        intro hroom p hp hhash hbegin hend
        rw [List.length_append] at hroom
        rcases List.mem_append.mp hp with hp | hp
        · refine List.mem_append_right _ (hall' ?_ p hp hhash hbegin hend)
          rw [List.length_append]
          omega
        · exact List.mem_append_left _ (hall (by omega) p hp hhash hbegin hend)

/-! ### The builds -/

/-- The last file ends with a put, or has not been written. -/
def EndsIn (files : List IndexFile) (ps : List Put) : Prop :=
  ∀ f ∈ files.getLast?, f.endPhyOffset.toInt ≤ 0 ∨ ∃ p ∈ ps, f.endPhyOffset = offset p

lemma Built.le_end (h : Built cfg files ps gs) (ht : Timed ps) {f : IndexFile}
    (hf : files.getLast? = some f) (hne : f.indexes ≠ []) :
    0 < f.endTimestamp.toInt ∧ ∀ p ∈ ps, time p ≤ f.endTimestamp.toInt := by
  cases h with
  | nil => exact absurd hf (by simp)
  | first h =>
    obtain rfl : _ = f := by simpa using hf
    have hps : ps ≠ [] := fun h0 => hne (List.eq_nil_of_length_eq_zero (by simp [h.length_eq, h0]))
    obtain ⟨p, hp⟩ := List.exists_mem_of_ne_nil ps hps
    exact ⟨(ht.pos p hp).trans_le (h.bounds p hp).2, fun q hq => (h.bounds q hq).2⟩
  | @roll files f' ps gs qs _ _ h hle =>
    obtain rfl : f' = f := by simpa using hf
    have hqs : qs ≠ [] := fun h0 => hne (List.eq_nil_of_length_eq_zero (by simp [h.length_eq, h0]))
    obtain ⟨q, hq⟩ := List.exists_mem_of_ne_nil qs hqs
    have hbounds := h.bounds q hq
    refine ⟨(ht.pos q (List.mem_append_right _ hq)).trans_le hbounds.2, fun p hp => ?_⟩
    rcases List.mem_append.mp hp with hp | hp
    · exact (hle p hp).trans (hbounds.1.trans hbounds.2)
    · exact (h.bounds p hp).2

lemma Built.of_nil (h : Built cfg files ps gs) (hf : files = []) : ps = [] ∧ gs = [] := by
  cases h with
  | nil => exact ⟨rfl, rfl⟩
  | first => simp at hf
  | roll => simp at hf

/-- A file with room stands at the end. -/
def Roomy (cfg : Config) (files : List IndexFile) : Prop :=
  ∃ f, files.getLast? = some f ∧ f.indexes.length + 1 < cfg.indexNum

lemma Built.create (h : Built cfg files ps gs) (ht : Timed ps) (hend : EndsIn files ps)
    (hnum : 1 < cfg.indexNum) :
    Built cfg (getAndCreateLastIndexFile cfg files) ps gs ∧
      EndsIn (getAndCreateLastIndexFile cfg files) ps ∧
      Roomy cfg (getAndCreateLastIndexFile cfg files) := by
  unfold getAndCreateLastIndexFile
  cases hf : files.getLast? with
  | none =>
    obtain ⟨rfl, rfl⟩ := h.of_nil (List.getLast?_eq_none_iff.mp hf)
    refine ⟨.first (filled_first (by omega)), fun f hf => .inl ?_, _, rfl, hnum⟩
    obtain rfl := Option.some.inj hf
    decide
  | some f =>
    have hne : files ≠ [] := by rintro rfl; simp at hf
    by_cases hfull : f.isWriteFull cfg
    · simp only [if_pos hfull]
      have hcount : cfg.indexNum ≤ f.indexes.length + 1 := of_decide_eq_true hfull
      have hidx : f.indexes ≠ [] := by rintro h0; simp [h0] at hcount; omega
      obtain ⟨hpos, hle⟩ := h.le_end ht hf hidx
      have hnew : 0 < f.endTimestamp := by rwa [Int64.lt_iff_toInt_lt]
      refine ⟨?_, fun f' hf' => ?_, _, List.getLast?_concat, hnum⟩
      · have := h.roll hne (filled_newFile (by omega) f.endPhyOffset f.endTimestamp)
          (fun p hp => by simpa [IndexFile.newFile, hnew] using hle p hp)
        simpa using this
      · obtain rfl : IndexFile.newFile f.endPhyOffset f.endTimestamp = f' := by simpa using hf'
        by_cases h0 : 0 < f.endPhyOffset
        · simpa [IndexFile.newFile, h0] using hend f hf
        · exact .inl (by simp [IndexFile.newFile, h0])
    · simp only [if_neg hfull]
      exact ⟨h, hend, f, hf, not_le.mp fun hle => hfull (decide_eq_true hle)⟩

lemma Built.slots (h : Built cfg files ps gs) {f : IndexFile} (hf : files.getLast? = some f) :
    ∀ q, f.slots q = lastIn (slotOf cfg) q f.indexes := by
  cases h with
  | nil => exact absurd hf (by simp)
  | first h =>
    obtain rfl : _ = f := by simpa using hf
    exact h.slots
  | roll _ _ h =>
    obtain rfl : _ = f := by simpa using hf
    exact h.slots

lemma Built.put (h : Built cfg files ps gs) {f f' : IndexFile} (hf : files.getLast? = some f)
    {p : Put} {u : IndexUnit} (ht : Timed (ps ++ [p])) (hw : Written cfg f f' p u) :
    ∃ gs', Built cfg (files.dropLast ++ [f']) (ps ++ [p]) gs' := by
  cases h with
  | nil => exact absurd hf (by simp)
  | first h =>
    obtain rfl : _ = f := by simpa using hf
    exact ⟨_, .first (h.put ht hw)⟩
  | @roll files f'' ps gs qs hfiles hne h hle =>
    obtain rfl : f'' = f := by simpa using hf
    rw [List.append_assoc] at ht
    have hput := h.put (ht.sublist (List.sublist_append_right _ _)) hw
    rw [List.dropLast_concat, List.append_assoc]
    refine ⟨_, hfiles.roll hne hput fun p' hp' => ?_⟩
    rw [hw.beginTimestamp]
    split
    · exact (List.pairwise_append.mp ht.sorted).2.2 p' hp' p (by simp)
    · exact hle p' hp'

/-- A put where there is room. -/
lemma Built.putLoop_roomy (h : Built cfg files ps gs) (hroomy : Roomy cfg files) {p : Put}
    (ht : Timed (ps ++ [p])) (fuel : ℕ) :
    ∃ files' gs', putLoop cfg (fuel + 1) files p = some files' ∧
      Built cfg files' (ps ++ [p]) gs' ∧ EndsIn files' (ps ++ [p]) := by
  obtain ⟨f, hf, hroom⟩ := hroomy
  obtain ⟨f', hput⟩ : ∃ f', f.putKey cfg (buildKey p.1.topic p.2) p.1.commitLogOffset
      p.1.storeTimestamp = some f' := ⟨_, if_pos hroom⟩
  obtain ⟨u, hw⟩ := written_putKey (h.slots hf) hput
  obtain ⟨gs', hbuilt⟩ := h.put hf ht hw
  refine ⟨files.dropLast ++ [f'], gs', ?_, hbuilt, fun f'' hf'' => .inr ?_⟩
  · rw [putLoop, hf, Option.bind_some, hput]
  · obtain rfl : f' = f'' := by simpa using hf''
    exact ⟨p, by simp, hw.endPhyOffset⟩

/-- A put: the second file takes it at the latest. -/
lemma Built.putLoop_spec (h : Built cfg files ps gs) (hend : EndsIn files ps)
    (hnum : 1 < cfg.indexNum) {p : Put} (ht : Timed (ps ++ [p])) {fuel : ℕ} (hfuel : 2 ≤ fuel) :
    ∃ files' gs', putLoop cfg fuel files p = some files' ∧ Built cfg files' (ps ++ [p]) gs' ∧
      EndsIn files' (ps ++ [p]) := by
  obtain ⟨fuel, rfl⟩ : ∃ n, fuel = n + 2 := ⟨fuel - 2, by omega⟩
  by_cases hroomy : Roomy cfg files
  · exact h.putLoop_roomy hroomy ht (fuel + 1)
  · obtain ⟨hcreated, _, hroomy'⟩ := h.create (ht.sublist (List.sublist_append_left _ _)) hend hnum
    obtain ⟨files', gs', hput, hrest⟩ := hcreated.putLoop_roomy hroomy' ht fuel
    refine ⟨files', gs', ?_, hrest⟩
    have hnone : files.getLast?.bind (IndexFile.putKey cfg (buildKey p.1.topic p.2)
        p.1.commitLogOffset p.1.storeTimestamp) = none := by
      cases hf : files.getLast? with
      | none => rfl
      | some f => exact if_neg fun hroom => hroomy ⟨f, hf, hroom⟩
    rw [putLoop, hnone]
    exact hput

lemma Built.puts_spec (h : Built cfg files ps gs) (hend : EndsIn files ps)
    (hnum : 1 < cfg.indexNum) {fuel : ℕ} (hfuel : 2 ≤ fuel) (qs : List Put)
    (ht : Timed (ps ++ qs)) :
    ∃ files' gs', qs.foldlM (putLoop cfg fuel) files = some files' ∧
      Built cfg files' (ps ++ qs) gs' ∧ EndsIn files' (ps ++ qs) := by
  induction qs generalizing files ps gs with
  | nil => exact ⟨files, gs, rfl, by simpa using h, by simpa using hend⟩
  | cons q qs ih =>
    rw [List.append_cons] at ht
    obtain ⟨files', gs', hput, hbuilt, hend'⟩ :=
      h.putLoop_spec hend hnum (ht.sublist (List.sublist_append_left _ _)) hfuel
    obtain ⟨files'', gs'', hrest, hbuilt', hend''⟩ := ih hbuilt hend' ht
    refine ⟨files'', gs'', ?_, by simpa using hbuilt', by simpa using hend''⟩
    rw [List.foldlM_cons, hput]
    exact hrest

end Files

/-- The messages of a log: offsets increase, times are positive and do not fall, and the last time
is less than `2 ^ 31` seconds behind the first. -/
structure Dispatched (ms : List DispatchRequest) : Prop where
  offsets : ms.Pairwise fun m m' => m.commitLogOffset.toInt < m'.commitLogOffset.toInt
  nonneg : ∀ m ∈ ms, 0 ≤ m.commitLogOffset.toInt
  pos : ∀ m ∈ ms, 0 < m.storeTimestamp.toInt
  times : ms.Pairwise fun m m' => m.storeTimestamp.toInt ≤ m'.storeTimestamp.toInt
  span : ∀ m ∈ ms, ∀ m' ∈ ms, m'.storeTimestamp.toInt - m.storeTimestamp.toInt < 2 ^ 31 * 1000

section Calls

variable {cfg : Config} {ms : List DispatchRequest}

lemma mem_indexed {p : Put} : p ∈ indexed ms ↔ p.1 ∈ ms ∧ p.2 ∈ indexKeys p.1 := by
  obtain ⟨m, key⟩ := p
  simp only [indexed, List.mem_flatMap, List.mem_map, Prod.mk.injEq]
  constructor
  · rintro ⟨m', hm, key', hkey, rfl, rfl⟩
    exact ⟨hm, hkey⟩
  · rintro ⟨hm, hkey⟩
    exact ⟨m, hm, key, hkey, rfl, rfl⟩

lemma indexed_append (ms ms' : List DispatchRequest) :
    indexed (ms ++ ms') = indexed ms ++ indexed ms' := List.flatMap_append

lemma Dispatched.sublist {ms' : List DispatchRequest} (h : Dispatched ms') (hsub : ms.Sublist ms') :
    Dispatched ms :=
  ⟨h.offsets.sublist hsub, fun m hm => h.nonneg m (hsub.subset hm),
    fun m hm => h.pos m (hsub.subset hm), h.times.sublist hsub,
    fun m hm m' hm' => h.span m (hsub.subset hm) m' (hsub.subset hm')⟩

lemma Dispatched.timed (h : Dispatched ms) : Timed (indexed ms) where
  pos p hp := h.pos p.1 (mem_indexed.mp hp).1
  span p hp q hq := h.span p.1 (mem_indexed.mp hp).1 q.1 (mem_indexed.mp hq).1
  sorted := by
    refine List.pairwise_flatMap.mpr ⟨fun m _ => ?_, h.times.imp fun hle p hp q hq => ?_⟩
    · exact List.pairwise_map.mpr (List.pairwise_of_forall fun _ _ => le_rfl)
    · obtain ⟨_, _, rfl⟩ := List.mem_map.mp hp
      obtain ⟨_, _, rfl⟩ := List.mem_map.mp hq
      exact hle

/-- A message is known by its offset. -/
lemma Dispatched.eq_of_offset (h : Dispatched ms) {m m' : DispatchRequest} (hm : m ∈ ms)
    (hm' : m' ∈ ms) (heq : m.commitLogOffset = m'.commitLogOffset) : m = m' := by
  have hnodup : (ms.map fun m => m.commitLogOffset.toInt).Nodup :=
    List.pairwise_map.mpr (h.offsets.imp fun hlt => hlt.ne)
  exact List.inj_on_of_nodup_map hnodup hm hm' (congrArg Int64.toInt heq)

/-- Nothing is left out of a batch that comes later. -/
lemma puts_eq {req : List DispatchRequest} {endPhyOffset : Int64}
    (h : ∀ m ∈ req, endPhyOffset.toInt ≤ m.commitLogOffset.toInt) :
    puts endPhyOffset req = indexed req := by
  refine List.flatMap_congr fun m hm => if_neg ?_
  rw [Int64.lt_iff_toInt_lt]
  exact not_lt.mpr (h m hm)

lemma Built.buildIndex_spec {files : List IndexFile} {gs : List Put} {req : List DispatchRequest}
    (h : Built cfg files (indexed ms) gs) (hend : EndsIn files (indexed ms))
    (hnum : 1 < cfg.indexNum) {fuel : ℕ} (hfuel : 2 ≤ fuel) (hms : Dispatched (ms ++ req)) :
    ∃ files' gs', buildIndex cfg fuel files req = some files' ∧
      Built cfg files' (indexed (ms ++ req)) gs' ∧ EndsIn files' (indexed (ms ++ req)) := by
  obtain ⟨hcreated, hend', f, hf, _⟩ :=
    h.create (hms.sublist (List.sublist_append_left _ _)).timed hend hnum
  have hlater : ∀ m ∈ req, f.endPhyOffset.toInt ≤ m.commitLogOffset.toInt := by
    intro m hm
    rcases hend' f hf with hle | ⟨p, hp, heq⟩
    · exact hle.trans (hms.nonneg m (List.mem_append_right _ hm))
    · rw [heq]
      exact ((List.pairwise_append.mp hms.offsets).2.2 p.1 (mem_indexed.mp hp).1 m hm).le
  obtain ⟨files', gs', hputs, hrest⟩ := hcreated.puts_spec hend' hnum hfuel (indexed req)
    (by rw [← indexed_append]; exact hms.timed)
  refine ⟨files', gs', ?_, by rwa [indexed_append]⟩
  simp only [buildIndex, hf, Option.map_some, Option.getD_some]
  rw [puts_eq hlater]
  exact hputs

lemma Built.calls_spec {files : List IndexFile} {gs : List Put}
    {reqs : List (List DispatchRequest)} (h : Built cfg files (indexed ms) gs)
    (hend : EndsIn files (indexed ms)) (hnum : 1 < cfg.indexNum) {fuel : ℕ} (hfuel : 2 ≤ fuel)
    (hms : Dispatched (ms ++ reqs.flatten)) :
    ∃ files' gs', reqs.foldlM (buildIndex cfg fuel) files = some files' ∧
      Built cfg files' (indexed (ms ++ reqs.flatten)) gs' := by
  induction reqs generalizing files ms gs with
  | nil => exact ⟨files, gs, rfl, by simpa using h⟩
  | cons req reqs ih =>
    rw [List.flatten_cons, ← List.append_assoc] at hms ⊢
    obtain ⟨files', gs', hcall, hbuilt, hend'⟩ :=
      h.buildIndex_spec hend hnum hfuel (hms.sublist (List.sublist_append_left _ _))
    obtain ⟨files'', gs'', hrest, hbuilt'⟩ := ih hbuilt hend' hms
    refine ⟨files'', gs'', ?_, hbuilt'⟩
    rw [List.foldlM_cons, hcall]
    exact hrest

/-- Every message in time is found by its key, if an entry of it is not the first one of a file
behind the first file. -/
def Complete (files : List IndexFile) (ms : List DispatchRequest) (topic key : Text)
    (beginTime endTime : Int64) (phyOffsets : List Int64) : Prop :=
  ∀ m ∈ ms, m.topic = topic → key ∈ indexKeys m →
    beginTime.toInt + 1000 ≤ m.storeTimestamp.toInt → m.storeTimestamp.toInt ≤ endTime.toInt →
    (∃ u ∈ unshifted files, u.keyHash = hash (m, key) ∧ u.phyOffset = m.commitLogOffset) →
    m.commitLogOffset ∈ phyOffsets

/-- What is found has a key with the same hash, and is at most a second out of the interval, unless
its entry is the first one of a file behind the first file. -/
def Sound (files : List IndexFile) (ms : List DispatchRequest) (topic key : Text)
    (beginTime endTime : Int64) (phyOffsets : List Int64) : Prop :=
  ∀ o ∈ phyOffsets, ∃ m ∈ ms, ∃ key' ∈ indexKeys m, m.commitLogOffset = o ∧
    hash (m, key') = IndexFile.indexKeyHashMethod (buildKey topic key) ∧
    (beginTime.toInt - 1000 ≤ m.storeTimestamp.toInt ∧
        m.storeTimestamp.toInt ≤ endTime.toInt + 1000 ∨
      ∃ f ∈ files.tail, ∃ u, f.indexes.head? = some u ∧ u.keyHash = hash (m, key') ∧
        u.phyOffset = o)

/-- **Queries of the index.** The calls put every key of every message, in order. A query comes to
its end and is sound, and it is complete if there is room for all hits. -/
theorem query_complete {reqs : List (List DispatchRequest)} {fuel : ℕ}
    (hcfg : 0 < cfg.hashSlotNum ∧ 1 < cfg.indexNum) (hfuel : cfg.indexNum ≤ fuel)
    (hms : Dispatched reqs.flatten) :
    ∃ files, buildIndexes cfg fuel reqs = some files ∧
      (entries files).map (fun u => (u.keyHash, u.phyOffset)) =
        (indexed reqs.flatten).map (fun p => (hash p, offset p)) ∧
      ∀ (topic key : Text) (maxNum maxMsgsNumBatch : Int32) (beginTime endTime : Int64),
        0 ≤ maxNum → ∃ r,
          queryOffset cfg maxMsgsNumBatch fuel files topic key maxNum beginTime endTime =
            some (.ok r) ∧
          Sound files reqs.flatten topic key beginTime endTime r.phyOffsets ∧
          ((hits files (IndexFile.indexKeyHashMethod (buildKey topic key)) beginTime
                endTime).length ≤ (min maxNum maxMsgsNumBatch).toInt →
            Complete files reqs.flatten topic key beginTime endTime r.phyOffsets) := by
  have hnil : Built cfg [] (indexed []) [] := .nil
  obtain ⟨files, gs, hcalls, hbuilt⟩ :=
    hnil.calls_spec (fun f hf => absurd hf (by simp)) hcfg.2 (by omega : 2 ≤ fuel) hms
  rw [List.nil_append] at hbuilt
  refine ⟨files, hcalls, hbuilt.entries_eq, ?_⟩
  intro topic key maxNum maxMsgsNumBatch beginTime endTime hmax
  obtain ⟨L, hL, hsub, hall⟩ := hbuilt.query_spec hms.timed hfuel (buildKey topic key)
    (min maxNum maxMsgsNumBatch) beginTime endTime []
  have hneg : ¬ maxNum < 0 := Int32.not_lt.mpr hmax
  have hquery : queryOffset cfg maxMsgsNumBatch fuel files topic key maxNum beginTime endTime =
      some (.ok ⟨L, (files.getLast?.map IndexFile.endTimestamp).getD 0,
        (files.getLast?.map IndexFile.endPhyOffset).getD 0⟩) := by
    rw [queryOffset, if_neg hneg, hL]
    rfl
  refine ⟨_, hquery, fun o ho => ?_, fun hroom m hm htopic hkey hbegin hend hentry => ?_⟩
  · obtain ⟨f, hf, ho⟩ := List.mem_flatMap.mp (List.mem_reverse.mp (hsub.subset ho))
    obtain ⟨u, hu, rfl⟩ := List.mem_map.mp ho
    obtain ⟨hu, hhit⟩ := List.mem_filter.mp hu
    obtain ⟨p, hp, hhash, hoff, htime⟩ := hbuilt.put_of_entry hms.timed f hf u hu
    obtain ⟨hm, hkey⟩ := mem_indexed.mp hp
    obtain ⟨heq, hlow, hhigh⟩ := keyHash_of_isHit hhit
    refine ⟨p.1, hm, p.2, hkey, hoff.symm, hhash.symm.trans heq.symm, ?_⟩
    rw [Int64.le_iff_toInt_le] at hlow hhigh
    rcases htime with ⟨hle, hlt⟩ | ⟨htail, hhead⟩
    · change (timeRead f u).toInt ≤ p.1.storeTimestamp.toInt at hle
      change p.1.storeTimestamp.toInt < (timeRead f u).toInt + 1000 at hlt
      exact .inl (by omega)
    · exact .inr ⟨f, htail, u, hhead, hhash, rfl⟩
  · subst htopic
    -- the entry's put is one of the message
    obtain ⟨u, hu, hhash, hoff⟩ := hentry
    have hmem := List.mem_map_of_mem (f := fun u : IndexUnit => (u.keyHash, u.phyOffset)) hu
    rw [hbuilt.unshifted_eq] at hmem
    obtain ⟨p, hp, heq⟩ := List.mem_map.mp hmem
    simp only [Prod.mk.injEq] at heq
    have hpm : p.1 = m := hms.eq_of_offset (mem_indexed.mp (hbuilt.sublist.subset hp)).1 hm
      (heq.2.trans hoff)
    have := hall (by simpa using hroom) p hp (heq.1.trans hhash)
      (by rw [time, hpm]; exact hbegin) (by rw [time, hpm]; exact hend)
    rwa [offset, hpm] at this

end Calls

/-! ### Two messages with one key -/

section Examples

open CloudMQ.IndexCompleteness (request)

/-- Nine entries fit in a file. -/
def wide : Config := ⟨4, 10, 1024⟩

def calls : List (List DispatchRequest) :=
  [[request 0 5000 "a".toList], [request 100 6000 "a".toList]]

lemma dispatched_calls : Dispatched calls.flatten :=
  ⟨by decide, by decide, by decide, by decide, by decide⟩

/-- The files the calls leave. -/
def filesOfCalls : List IndexFile := (buildIndexes wide 10 calls).getD []

/-- There is room for ten offsets, and two entries are hits. The store hands out one at most. -/
theorem query_complete_batch :
    Dispatched calls.flatten ∧ buildIndexes wide 10 calls = some filesOfCalls ∧
      (hits filesOfCalls (IndexFile.indexKeyHashMethod (buildKey "T".toList "a".toList)) 0
        10000).length ≤ (10 : Int32).toInt ∧
      ∃ r, queryOffset wide 1 10 filesOfCalls "T".toList "a".toList 10 0 10000 = some (.ok r) ∧
        ¬ ∀ m ∈ calls.flatten, m.topic = "T".toList → "a".toList ∈ indexKeys m →
          (0 : Int64).toInt + 1000 ≤ m.storeTimestamp.toInt →
          m.storeTimestamp.toInt ≤ (10000 : Int64).toInt → m.commitLogOffset ∈ r.phyOffsets := by
  refine ⟨dispatched_calls, rfl, by decide, ⟨[100], 6000, 100⟩, rfl, fun h => ?_⟩
  exact absurd (h (request 0 5000 "a".toList) (by decide) rfl (by decide) (by decide) (by decide))
    (by decide)

theorem query_complete_calls :
    ∃ files, buildIndexes wide 10 calls = some files ∧ ∃ r,
      queryOffset wide 64 10 files "T".toList "a".toList 10 0 10000 = some (.ok r) ∧
        Sound files calls.flatten "T".toList "a".toList 0 10000 r.phyOffsets := by
  obtain ⟨files, hfiles, _, h⟩ :=
    @query_complete wide calls 10 ⟨by decide, by decide⟩ le_rfl dispatched_calls
  obtain ⟨r, hr, hsound, _⟩ := h "T".toList "a".toList 10 64 0 10000 (by decide)
  exact ⟨files, hfiles, r, hr, hsound⟩

end Examples

end CloudMQ.QueryCompleteness
