import Mathlib.Data.Int.CardIntervalMod
import CloudMQ.Allocation
import CloudMQ.Properties

/-!
What the clients of a group have between them, under each of the strategies that divide a list.

The clients do not see what the others get: the places of one are computed from the two lengths and
from its own place in the list of ids. A division is right when the places of all clients together
are the places of the list, each of them once.
-/

namespace CloudMQ.Strategies

open CloudMQ.Utf8 CloudMQ.Strings CloudMQ.Shares CloudMQ.Allocation CloudMQ.Properties
open CloudMQ.TopicRoutes (MessageQueue)

/-! ### The strategies -/

/-- `AllocateMessageQueueAveragelyByCircle`; an error is an `IllegalArgumentException`. -/
def allocateByCircle (currentCID : Text) (mqAll : List MessageQueue) (cidAll : List Text) :
    Except String (List MessageQueue) :=
  if length currentCID < 1 then .error "currentCID is empty"
  else if mqAll.isEmpty then .error "mqAll is null or mqAll empty"
  else if cidAll.isEmpty then .error "cidAll is null or cidAll empty"
  else if currentCID ∉ cidAll then .ok []
  else
    let index := cidAll.idxOf currentCID
    .ok (pick (fun i => i % cidAll.length = index) mqAll
      (List.range' index (mqAll.length - index)))

/-- The test of a broker's name. -/
def inRooms (consumeridcs : Finset Text) (mq : MessageQueue) : Bool :=
  match split '@' mq.brokerName with
  | [room, _] => decide (room ∈ consumeridcs)
  | _ => false

/-- `AllocateMessageQueueByMachineRoom`; `none` is an `IndexOutOfBoundsException`. -/
def allocateByMachineRoom (consumeridcs : Finset Text) (currentCID : Text)
    (mqAll : List MessageQueue) (cidAll : List Text) : Option (List MessageQueue) :=
  if currentCID ∉ cidAll then some []
  else
    let currentIndex := cidAll.idxOf currentCID
    let premqAll := mqAll.filter (inRooms consumeridcs)
    let mod := premqAll.length / cidAll.length
    let rem := premqAll.length % cidAll.length
    let startindex := mod * currentIndex
    -- the indices are of the filtered list, but are looked up in the whole one
    ((List.range' startindex mod).mapM fun i => mqAll[i]?).bind fun result =>
      if currentIndex < rem then
        (premqAll[currentIndex + mod * cidAll.length]?).map fun mq => result ++ [mq]
      else some result

/-! ### Balanced divisions -/

/-- No client's allocation fails, and together they divide the list evenly. -/
structure Balanced (allocate : Text → List MessageQueue → List Text →
    Except String (List MessageQueue)) (mqAll : List MessageQueue) (cidAll : List Text)
    (result : Text → List MessageQueue) : Prop where
  ok : ∀ cid ∈ cidAll, allocate cid mqAll cidAll = .ok (result cid)
  nodup : ∀ cid ∈ cidAll, (result cid).Nodup
  disjoint : ∀ cid ∈ cidAll, ∀ cid' ∈ cidAll, cid ≠ cid' → (result cid).Disjoint (result cid')
  union : ∀ mq, (∃ cid ∈ cidAll, mq ∈ result cid) ↔ mq ∈ mqAll
  sizes : ∀ cid ∈ cidAll, ∀ cid' ∈ cidAll, (result cid).length ≤ (result cid').length + 1

section

variable {mqAll : List MessageQueue} {cidAll : List Text} {n : ℕ}

/-- The ids in the order of their places. -/
lemma exists_cid_iff (hnodup : cidAll.Nodup) {p : ℕ → Prop} :
    (∃ cid ∈ cidAll, p (cidAll.idxOf cid)) ↔ ∃ i < cidAll.length, p i := by
  constructor
  · rintro ⟨cid, hcid, h⟩
    exact ⟨_, List.idxOf_lt_length_of_mem hcid, h⟩
  · rintro ⟨i, hi, h⟩
    exact ⟨cidAll[i], List.getElem_mem hi, by rwa [hnodup.idxOf_getElem]⟩

lemma idxOf_ne {cid cid' : Text} (hcid : cid ∈ cidAll) (hne : cid ≠ cid') :
    cidAll.idxOf cid ≠ cidAll.idxOf cid' :=
  fun h => hne ((List.idxOf_inj hcid).mp h)

/-- Clients that each have the queues at their places, every place being one client's. -/
lemma balanced_of_places {allocate : Text → List MessageQueue → List Text →
    Except String (List MessageQueue)} (owns : ℕ → ℕ → Prop) {shares : ℕ → List MessageQueue}
    (hmqs : mqAll.Nodup) (hcids : cidAll.Nodup)
    (hok : ∀ cid ∈ cidAll, allocate cid mqAll cidAll = .ok (shares (cidAll.idxOf cid)))
    (hnodup : ∀ i < cidAll.length, (shares i).Nodup)
    (hplaces : ∀ i < cidAll.length, Places mqAll (owns i) (shares i))
    (howner : ∀ j < mqAll.length, ∃! i, i < cidAll.length ∧ owns i j)
    (hsizes : ∀ i < cidAll.length, n ≤ (shares i).length ∧ (shares i).length ≤ n + 1) :
    Balanced allocate mqAll cidAll fun cid => shares (cidAll.idxOf cid) where
  ok := hok
  nodup := fun _ hcid => hnodup _ (List.idxOf_lt_length_of_mem hcid)
  disjoint := by
    intro cid hcid cid' hcid' hne
    have hi := List.idxOf_lt_length_of_mem hcid
    have hi' := List.idxOf_lt_length_of_mem hcid'
    refine (hplaces _ hi).disjoint (hplaces _ hi') hmqs fun j hj hp hp' => ?_
    exact idxOf_ne hcid hne ((howner j hj).unique ⟨hi, hp⟩ ⟨hi', hp'⟩)
  union := by
    intro mq
    rw [exists_cid_iff hcids (p := fun i => mq ∈ shares i)]
    exact mem_iff_of_places hplaces (fun j hj => (howner j hj).exists) mq
  sizes := by
    intro cid hcid cid' hcid'
    have h := hsizes _ (List.idxOf_lt_length_of_mem hcid)
    have h' := hsizes _ (List.idxOf_lt_length_of_mem hcid')
    omega

/-! ### Averages -/

lemma flatMap_block {α : Type} (l : List α) (k r : ℕ) :
    (List.range r).flatMap (fun i => l[k + i]?.toList) = (l.drop k).take r := by
  induction r with
  | zero => rfl
  | succ r ih =>
    rw [List.range_succ, List.flatMap_append, ih, List.flatMap_singleton, List.take_add_one,
      List.getElem?_drop]

/-- The block of a client. -/
def block (mqAll : List MessageQueue) (n i : ℕ) : List MessageQueue :=
  (mqAll.drop (start mqAll.length n i)).take
    (start mqAll.length n (i + 1) - start mqAll.length n i)

lemma allocate_eq {cid : Text} (hcid : cid ∈ cidAll) (hempty : cid ≠ []) (hmq : mqAll ≠ []) :
    allocate cid mqAll cidAll = .ok (block mqAll cidAll.length (cidAll.idxOf cid)) := by
  have hindex : cidAll.idxOf cid < cidAll.length := List.idxOf_lt_length_of_mem hcid
  have hend : start mqAll.length cidAll.length (cidAll.idxOf cid + 1) ≤ mqAll.length :=
    start_le hindex (by omega)
  rw [allocate]
  simp only [length_lt_one_iff, List.isEmpty_iff]
  rw [if_neg hempty, if_neg hmq, if_neg (List.ne_nil_of_mem hcid), if_neg (not_not.mpr hcid),
    range_toNat hindex, block, ← flatMap_block]
  refine congrArg Except.ok (List.flatMap_congr ?_)
  intro i hi
  rw [List.mem_range] at hi
  rw [startIndex_eq hindex (by omega), Nat.mod_eq_of_lt (by omega)]

lemma length_block {i : ℕ} (hi : i < n) : mqAll.length / n ≤ (block mqAll n i).length ∧
    (block mqAll n i).length ≤ mqAll.length / n + 1 := by
  have hend : start mqAll.length n (i + 1) ≤ mqAll.length := start_le hi (by omega)
  have hsucc := start_succ mqAll.length n i
  rw [block, List.length_take, List.length_drop]
  generalize mqAll.length / n = q at hsucc ⊢
  split_ifs at hsucc <;> omega

lemma balanced_averagely (hmq : mqAll ≠ []) (hmqs : mqAll.Nodup) (hcid : cidAll ≠ [])
    (hcids : cidAll.Nodup) (hempty : [] ∉ cidAll) : Balanced allocate mqAll cidAll
      fun cid => block mqAll cidAll.length (cidAll.idxOf cid) := by
  refine balanced_of_places (fun i j => start mqAll.length cidAll.length i ≤ j ∧
    j < start mqAll.length cidAll.length (i + 1)) hmqs hcids
    (fun cid h => allocate_eq h (fun heq => hempty (heq ▸ h)) hmq)
    (fun i _ => hmqs.sublist ((List.take_sublist _ _).trans (List.drop_sublist _ _)))
    (fun i _ => ?_) (fun j hj => existsUnique_share (List.length_pos_iff.mpr hcid) hj)
    fun i hi => length_block hi
  have hmono := start_mono mqAll.length cidAll.length (Nat.le_succ i)
  have hblock := places_block mqAll (start mqAll.length cidAll.length i)
    (start mqAll.length cidAll.length (i + 1) - start mqAll.length cidAll.length i)
  rwa [Nat.add_sub_cancel' hmono] at hblock

/-! ### In a circle -/

/-- The queues of a client. -/
def circle (mqAll : List MessageQueue) (n i : ℕ) : List MessageQueue :=
  pick (fun j => j % n = i) mqAll (List.range mqAll.length)

lemma allocateByCircle_eq {cid : Text} (hcid : cid ∈ cidAll) (hempty : cid ≠ [])
    (hmq : mqAll ≠ []) : allocateByCircle cid mqAll cidAll =
      .ok (circle mqAll cidAll.length (cidAll.idxOf cid)) := by
  have hbefore : ∀ j < cidAll.idxOf cid, ¬j % cidAll.length = cidAll.idxOf cid := by
    intro j hj
    have hle := Nat.mod_le j cidAll.length
    omega
  rw [allocateByCircle]
  simp only [length_lt_one_iff, List.isEmpty_iff]
  rw [if_neg hempty, if_neg hmq, if_neg (List.ne_nil_of_mem hcid), if_neg (not_not.mpr hcid),
    circle, ← pick_range' hbefore]

lemma length_circle {i : ℕ} (hi : i < n) : mqAll.length / n ≤ (circle mqAll n i).length ∧
    (circle mqAll n i).length ≤ mqAll.length / n + 1 := by
  have hcount := Nat.count_modEq_card mqAll.length (by omega : 0 < n) i
  have hlen : (circle mqAll n i).length = mqAll.length.count (· ≡ i [MOD n]) := by
    rw [circle, length_pick le_rfl, Nat.count]
    refine List.countP_congr fun j _ => ?_
    simp only [decide_eq_true_eq, Nat.ModEq, Nat.mod_eq_of_lt hi]
  rw [hlen, hcount]
  split_ifs <;> omega

lemma balanced_byCircle (hmq : mqAll ≠ []) (hmqs : mqAll.Nodup) (hcid : cidAll ≠ [])
    (hcids : cidAll.Nodup) (hempty : [] ∉ cidAll) : Balanced allocateByCircle mqAll cidAll
      fun cid => circle mqAll cidAll.length (cidAll.idxOf cid) := by
  refine balanced_of_places (fun i j => j % cidAll.length = i) hmqs hcids
    (fun cid h => allocateByCircle_eq h (fun heq => hempty (heq ▸ h)) hmq)
    (fun i _ => nodup_pick hmqs List.nodup_range) (fun i _ => places_pick mqAll) (fun j _ => ?_)
    fun i hi => length_circle hi
  refine ⟨j % cidAll.length, ⟨Nat.mod_lt j (List.length_pos_iff.mpr hcid), rfl⟩, ?_⟩
  rintro i ⟨-, rfl⟩
  rfl

/-- **A balanced partition.** Both strategies divide any queues evenly among clients whose ids are
different and not empty; the averages are blocks of the list. -/
theorem allocations_balanced (hmq : mqAll ≠ []) (hmqs : mqAll.Nodup) (hcid : cidAll ≠ [])
    (hcids : cidAll.Nodup) (hempty : [] ∉ cidAll) :
    (∃ result, Balanced allocate mqAll cidAll result ∧ ∀ cid ∈ cidAll, result cid <:+: mqAll) ∧
      ∃ result, Balanced allocateByCircle mqAll cidAll result := by
  refine ⟨⟨_, balanced_averagely hmq hmqs hcid hcids hempty, fun cid _ => ?_⟩,
    ⟨_, balanced_byCircle hmq hmqs hcid hcids hempty⟩⟩
  exact (List.take_prefix _ _).isInfix.trans (List.drop_suffix _ _).isInfix

end

theorem allocations_balanced_two :
    (∃ result, Balanced allocate (brokerQueues 3) [['a'], ['b']] result ∧
      ∀ cid ∈ [['a'], ['b']], result cid <:+: brokerQueues 3) ∧
      ∃ result, Balanced allocateByCircle (brokerQueues 3) [['a'], ['b']] result :=
  allocations_balanced (List.cons_ne_nil _ _) (nodup_brokerQueues 3) (List.cons_ne_nil _ _)
    (by decide) (by decide)

/-- A client with the empty id is refused. -/
theorem allocations_nameless : ¬ ∀ (mqAll : List MessageQueue) (cidAll : List Text), mqAll ≠ [] →
    mqAll.Nodup → cidAll ≠ [] → cidAll.Nodup →
    ∃ result, Balanced allocate mqAll cidAll result := by
  intro h
  obtain ⟨result, hresult⟩ := h (brokerQueues 1) [[]] (List.cons_ne_nil _ _) (nodup_brokerQueues 1)
    (List.cons_ne_nil _ _) (List.nodup_singleton _)
  have hok : Except.error "currentCID is empty" = Except.ok (result []) :=
    hresult.ok [] (List.mem_singleton_self _)
  cases hok

/-! ### Machine rooms -/

/-- A name of the form `room@name`, with a room of the set. -/
def OfRoom (consumeridcs : Finset Text) (brokerName : Text) : Prop :=
  ∃ room ∈ consumeridcs, ∃ name, '@' ∉ room ∧ '@' ∉ name ∧ name ≠ [] ∧
    brokerName = room ++ '@' :: name

/-- Such a name with separators behind it. -/
def Trailing (consumeridcs : Finset Text) (brokerName : Text) : Prop :=
  ∃ b k, OfRoom consumeridcs b ∧ brokerName = b ++ List.replicate (k + 1) '@'

/-- The clients have the queues of the rooms between them, no queue twice. -/
structure DividedByRoom (consumeridcs : Finset Text) (mqAll : List MessageQueue)
    (cidAll : List Text) (result : Text → List MessageQueue) : Prop where
  ok : ∀ cid ∈ cidAll, allocateByMachineRoom consumeridcs cid mqAll cidAll = some (result cid)
  disjoint : ∀ cid ∈ cidAll, ∀ cid' ∈ cidAll, cid ≠ cid' → (result cid).Disjoint (result cid')
  union : ∀ mq, (∃ cid ∈ cidAll, mq ∈ result cid) ↔
    mq ∈ mqAll ∧ OfRoom consumeridcs mq.brokerName

section

variable {consumeridcs : Finset Text} {mq : MessageQueue} {b : Text}

lemma count_of_ofRoom (h : OfRoom consumeridcs b) : b.count '@' = 1 := by
  obtain ⟨room, -, name, hroom, hname, -, rfl⟩ := h
  rw [List.count_append, List.count_cons_self, List.count_eq_zero_of_not_mem hroom,
    List.count_eq_zero_of_not_mem hname]

lemma not_ofRoom_of_trailing (h : Trailing consumeridcs b) : ¬OfRoom consumeridcs b := by
  intro hroom
  obtain ⟨b, k, hb, rfl⟩ := h
  have hcount := count_of_ofRoom hroom
  rw [List.count_append, count_of_ofRoom hb, List.count_replicate_self] at hcount
  omega

lemma inRooms_iff : inRooms consumeridcs mq ↔
    ∃ room ∈ consumeridcs, ∃ name, split '@' mq.brokerName = [room, name] := by
  rw [inRooms]
  constructor
  · intro h
    split at h
    · rename_i room name heq
      exact ⟨room, of_decide_eq_true h, name, heq⟩
    · cases h
  · rintro ⟨room, hroom, name, heq⟩
    rw [heq]
    exact decide_eq_true hroom

/-- The test also passes names with separators at the end. -/
lemma inRooms_iff_or : inRooms consumeridcs mq ↔
    OfRoom consumeridcs mq.brokerName ∨ Trailing consumeridcs mq.brokerName := by
  rw [inRooms_iff]
  constructor
  · rintro ⟨room, hmem, name, hsplit⟩
    obtain ⟨hroom, hname, hne, k, heq⟩ := split_eq_pair_iff.mp hsplit
    have hform : OfRoom consumeridcs (room ++ '@' :: name) :=
      ⟨room, hmem, name, hroom, hname, hne, rfl⟩
    cases k with
    | zero => exact .inl (by rwa [heq, List.replicate_zero, List.append_nil])
    | succ k => exact .inr ⟨_, k, hform, heq⟩
  · rintro (⟨room, hmem, name, hroom, hname, hne, heq⟩ |
      ⟨_, k, ⟨room, hmem, name, hroom, hname, hne, rfl⟩, heq⟩)
    · exact ⟨room, hmem, name, split_eq_pair_iff.mpr ⟨hroom, hname, hne, 0, by
        rw [heq, List.replicate_zero, List.append_nil]⟩⟩
    · exact ⟨room, hmem, name, split_eq_pair_iff.mpr ⟨hroom, hname, hne, k + 1, heq⟩⟩

variable {mqAll premqAll : List MessageQueue} {cidAll : List Text} {c i : ℕ}

/-- What the client at a place has: a block of all queues, and one of the rooms' queues that the
blocks leave over. -/
def roomShare (mqAll premqAll : List MessageQueue) (c i : ℕ) : List MessageQueue :=
  (mqAll.drop (premqAll.length / c * i)).take (premqAll.length / c) ++
    if i < premqAll.length % c then premqAll[i + premqAll.length / c * c]?.toList else []

lemma mapM_block {α : Type} {l : List α} {k r : ℕ} (h : k + r ≤ l.length) :
    (List.range' k r).mapM (fun i => l[i]?) = some ((l.drop k).take r) := by
  induction r with
  | zero => rfl
  | succ r ih =>
    have hget : l[k + r]? = some l[k + r] := List.getElem?_eq_getElem (by omega)
    rw [List.range'_1_concat, List.mapM_append, ih (by omega), List.take_add_one,
      List.getElem?_drop, hget]
    simp [hget]

/-- The blocks end before the queues of the rooms do. -/
lemma blocks_le (n c : ℕ) : n / c * c ≤ n := Nat.div_mul_le_self n c

lemma block_le (h : i < c) (n : ℕ) : n / c * i + n / c ≤ n / c * c := by
  have hmul : n / c * (i + 1) ≤ n / c * c := Nat.mul_le_mul_left _ h
  rwa [Nat.mul_add_one] at hmul

lemma exists_block {j q : ℕ} (h : j < q * c) : ∃ i < c, q * i ≤ j ∧ j < q * i + q := by
  rcases Nat.eq_zero_or_pos q with rfl | hpos
  · omega
  · refine ⟨j / q, Nat.div_lt_of_lt_mul h, Nat.mul_div_le j q, ?_⟩
    rw [← Nat.mul_add_one]
    exact Nat.lt_mul_div_succ j hpos

lemma block_unique {j q i' : ℕ} (h : q * i ≤ j ∧ j < q * i + q)
    (h' : q * i' ≤ j ∧ j < q * i' + q) : i = i' := by
  rw [← Nat.mul_add_one] at h h'
  exact share_unique (fun _ _ hle => Nat.mul_le_mul_left q hle) h h'

lemma allocateByMachineRoom_eq {cid : Text} (hcid : cid ∈ cidAll) :
    allocateByMachineRoom consumeridcs cid mqAll cidAll =
      some (roomShare mqAll (mqAll.filter (inRooms consumeridcs)) cidAll.length
        (cidAll.idxOf cid)) := by
  have hindex : cidAll.idxOf cid < cidAll.length := List.idxOf_lt_length_of_mem hcid
  have hle : (mqAll.filter (inRooms consumeridcs)).length ≤ mqAll.length :=
    List.length_filter_le _ _
  rw [allocateByMachineRoom, if_neg (not_not.mpr hcid), roomShare]
  generalize mqAll.filter (inRooms consumeridcs) = premqAll at hle ⊢
  have hblock := block_le hindex premqAll.length
  have hblocks := blocks_le premqAll.length cidAll.length
  dsimp only
  rw [mapM_block (by omega), Option.bind_some]
  split_ifs with hrem
  · have hdiv := Nat.div_add_mod' premqAll.length cidAll.length
    rw [List.getElem?_eq_getElem (by omega), Option.map_some, Option.toList_some]
  · rw [List.append_nil]

/-- All clients together. -/
lemma mem_roomShare (hc : 0 < c) (mq : MessageQueue) :
    (∃ i < c, mq ∈ roomShare mqAll premqAll c i) ↔
      mq ∈ mqAll.take (premqAll.length / c * c) ∨ mq ∈ premqAll.drop (premqAll.length / c * c) := by
  have hrem : premqAll.length % c < c := Nat.mod_lt _ hc
  have hdiv := Nat.div_add_mod' premqAll.length c
  have htake : mqAll.take (premqAll.length / c * c) =
      (mqAll.drop 0).take (premqAll.length / c * c) := rfl
  rw [htake, places_block mqAll 0 _ mq, List.mem_iff_getElem?]
  simp only [roomShare, List.mem_append, places_block mqAll _ _ mq, List.getElem?_drop]
  constructor
  · rintro ⟨i, hi, ⟨j, hj, -, hlt⟩ | hlast⟩
    · have hblock := block_le hi premqAll.length
      exact .inl ⟨j, hj, j.zero_le, by omega⟩
    · split_ifs at hlast with hlt
      · exact .inr ⟨i, by rwa [Nat.add_comm, ← Option.mem_toList]⟩
      · exact absurd hlast List.not_mem_nil
  · rintro (⟨j, hj, -, hlt⟩ | ⟨i, hi⟩)
    · rw [Nat.zero_add] at hlt
      obtain ⟨i, hi, hplace⟩ := exists_block hlt
      exact ⟨i, hi, .inl ⟨j, hj, hplace⟩⟩
    · have hlt := (List.getElem?_eq_some_iff.mp hi).1
      refine ⟨i, by omega, .inr ?_⟩
      rw [if_pos (by omega), Nat.add_comm, hi]
      exact List.mem_singleton_self _

/-- The rooms' queues that come first in the list of all queues. -/
lemma filter_take {k : ℕ} {p : MessageQueue → Bool} (hk : k ≤ (mqAll.filter p).length)
    (h : ∀ mq ∈ mqAll.take k, p mq) : (mqAll.filter p).take k = mqAll.take k ∧
      ∀ mq ∈ mqAll, p mq → mq ∈ mqAll.take k ∨ mq ∈ (mqAll.filter p).drop k := by
  have hlen : (mqAll.take k).length = k :=
    List.length_take_of_le (hk.trans (List.length_filter_le _ _))
  have hsplit : mqAll.filter p = mqAll.take k ++ (mqAll.drop k).filter p := by
    conv_lhs => rw [← List.take_append_drop k mqAll]
    rw [List.filter_append, List.filter_eq_self.mpr h]
  refine ⟨?_, fun mq hmq hp => ?_⟩
  · rw [hsplit, List.take_left' hlen]
  · rw [hsplit, List.drop_left' hlen, ← List.mem_append, ← hsplit]
    exact List.mem_filter.mpr ⟨hmq, hp⟩

/-- With the rooms' queues first, the blocks are blocks of theirs. -/
lemma places_roomShare (h : premqAll.take (premqAll.length / c * c) =
    mqAll.take (premqAll.length / c * c)) (hi : i < c) :
    Places premqAll (fun j => (premqAll.length / c * i ≤ j ∧
      j < premqAll.length / c * i + premqAll.length / c) ∨
      (i < premqAll.length % c ∧ j = i + premqAll.length / c * c))
      (roomShare mqAll premqAll c i) := by
  have hblock := block_le hi premqAll.length
  have hcut : ∀ l : List MessageQueue, (l.drop (premqAll.length / c * i)).take
      (premqAll.length / c) = ((l.take (premqAll.length / c * c)).drop
        (premqAll.length / c * i)).take (premqAll.length / c) := by
    intro l
    rw [List.drop_take, List.take_take, min_eq_left (by omega)]
  intro mq
  rw [roomShare, hcut mqAll, ← h, ← hcut premqAll, List.mem_append, places_block premqAll _ _ mq]
  constructor
  · rintro (⟨j, hj, hplace⟩ | hlast)
    · exact ⟨j, hj, .inl hplace⟩
    · split_ifs at hlast with hlt
      · exact ⟨_, Option.mem_toList.mp hlast, .inr ⟨hlt, rfl⟩⟩
      · exact absurd hlast List.not_mem_nil
  · rintro ⟨j, hj, hplace | ⟨hlt, rfl⟩⟩
    · exact .inl ⟨j, hj, hplace⟩
    · refine .inr ?_
      rw [if_pos hlt, hj]
      exact List.mem_singleton_self _

/-- How many queues the blocks take. -/
def blockTotal (consumeridcs : Finset Text) (mqAll : List MessageQueue) (cidAll : List Text) : ℕ :=
  (mqAll.filter (inRooms consumeridcs)).length / cidAll.length * cidAll.length

/-- What is allocated is right only when the blocks are. -/
lemma first_of_divided (hcid : cidAll ≠ []) (hcids : cidAll.Nodup)
    {result : Text → List MessageQueue} (h : DividedByRoom consumeridcs mqAll cidAll result) :
    (∀ mq ∈ mqAll.take (blockTotal consumeridcs mqAll cidAll), OfRoom consumeridcs mq.brokerName) ∧
      ∀ mq ∈ mqAll, ¬Trailing consumeridcs mq.brokerName := by
  have hall := @mem_roomShare mqAll (mqAll.filter (inRooms consumeridcs)) _
    (List.length_pos_iff.mpr hcid)
  have hunion : ∀ mq, (∃ i < cidAll.length, mq ∈ roomShare mqAll
      (mqAll.filter (inRooms consumeridcs)) cidAll.length i) →
      OfRoom consumeridcs mq.brokerName := by
    intro mq hmq
    obtain ⟨cid, hcid, hmem⟩ := (exists_cid_iff hcids (p := fun i => mq ∈ roomShare mqAll
      (mqAll.filter (inRooms consumeridcs)) cidAll.length i)).mpr hmq
    have heq := (allocateByMachineRoom_eq hcid).symm.trans (h.ok cid hcid)
    exact ((h.union mq).mp ⟨cid, hcid, Option.some.inj heq ▸ hmem⟩).2
  have hfirst := fun mq hmq => hunion mq ((hall mq).mpr (.inl hmq))
  refine ⟨hfirst, fun mq hmq htrailing => not_ofRoom_of_trailing htrailing (hunion mq ?_)⟩
  refine (hall mq).mpr ((filter_take (blocks_le _ _) fun mq hmq => ?_).2 mq hmq ?_)
  · exact inRooms_iff_or.mpr (.inl (hfirst mq hmq))
  · exact inRooms_iff_or.mpr (.inr htrailing)

lemma divided_of_first (hmqs : mqAll.Nodup) (hcid : cidAll ≠ []) (hcids : cidAll.Nodup)
    (hfirst : ∀ mq ∈ mqAll.take (blockTotal consumeridcs mqAll cidAll),
      OfRoom consumeridcs mq.brokerName)
    (htrailing : ∀ mq ∈ mqAll, ¬Trailing consumeridcs mq.brokerName) :
    DividedByRoom consumeridcs mqAll cidAll fun cid => roomShare mqAll
      (mqAll.filter (inRooms consumeridcs)) cidAll.length (cidAll.idxOf cid) := by
  have hrooms : ∀ mq ∈ mqAll, (inRooms consumeridcs mq ↔ OfRoom consumeridcs mq.brokerName) :=
    fun mq hmq => inRooms_iff_or.trans (or_iff_left (htrailing mq hmq))
  have htake := (filter_take (blocks_le _ _) fun mq h =>
    (hrooms mq (List.mem_of_mem_take h)).mpr (hfirst mq h)).1
  have hplaces := fun i (hi : i < cidAll.length) => places_roomShare htake hi
  have hdiv := Nat.div_add_mod' (mqAll.filter (inRooms consumeridcs)).length cidAll.length
  have hrem := Nat.mod_lt (mqAll.filter (inRooms consumeridcs)).length
    (List.length_pos_iff.mpr hcid)
  refine ⟨fun cid h => allocateByMachineRoom_eq h, fun cid hmem cid' hmem' hne => ?_,
    fun mq => ?_⟩
  · have hi := List.idxOf_lt_length_of_mem hmem
    have hi' := List.idxOf_lt_length_of_mem hmem'
    have hblock := block_le hi (mqAll.filter (inRooms consumeridcs)).length
    have hblock' := block_le hi' (mqAll.filter (inRooms consumeridcs)).length
    have hindex := idxOf_ne hmem hne
    refine (hplaces _ hi).disjoint (hplaces _ hi') (hmqs.filter _) fun j _ hp hp' => ?_
    rcases hp with hp | hp
    · rcases hp' with hp' | hp'
      · exact hindex (block_unique hp hp')
      · omega
    · rcases hp' with hp' | hp'
      · omega
      · omega
  · rw [exists_cid_iff hcids (p := fun i => mq ∈ roomShare mqAll
      (mqAll.filter (inRooms consumeridcs)) cidAll.length i), mem_iff_of_places hplaces,
      List.mem_filter]
    · exact and_congr_right (hrooms mq)
    · intro j hj
      rcases Nat.lt_or_ge j (blockTotal consumeridcs mqAll cidAll) with hlt | hge
      · obtain ⟨i, hi, hplace⟩ := exists_block hlt
        exact ⟨i, hi, .inl hplace⟩
      · rw [blockTotal] at hge
        exact ⟨j - _, by omega, .inr ⟨by omega, (Nat.sub_add_cancel hge).symm⟩⟩

/-- **Dividing by machine room.** The clients have the rooms' queues between them exactly when the
part of the list that the blocks take has queues of the rooms only, and no name of the list has
separators behind its two parts. -/
theorem machineRoom_divided_iff (hmqs : mqAll.Nodup) (hcid : cidAll ≠ []) (hcids : cidAll.Nodup) :
    (∃ result, DividedByRoom consumeridcs mqAll cidAll result) ↔
      (∀ mq ∈ mqAll.take (blockTotal consumeridcs mqAll cidAll),
        OfRoom consumeridcs mq.brokerName) ∧
      ∀ mq ∈ mqAll, ¬Trailing consumeridcs mq.brokerName := by
  constructor
  · rintro ⟨result, hresult⟩
    exact first_of_divided hcid hcids hresult
  · rintro ⟨hfirst, htrailing⟩
    exact ⟨_, divided_of_first hmqs hcid hcids hfirst htrailing⟩

end

/-- A queue of another room comes first. -/
def foreignFirst : List MessageQueue := [⟨[], ['o', '@', 'b'], 0⟩, ⟨[], ['r', '@', 'b'], 0⟩]

theorem machineRoom_divided_first : (∃ result, DividedByRoom {['o']} foreignFirst [['c']] result) ↔
    (∀ mq ∈ foreignFirst.take (blockTotal {['o']} foreignFirst [['c']]),
      OfRoom {['o']} mq.brokerName) ∧ ∀ mq ∈ foreignFirst, ¬Trailing {['o']} mq.brokerName :=
  machineRoom_divided_iff (by decide) (List.cons_ne_nil _ _) (List.nodup_singleton _)

theorem machineRoom_foreign : ¬ ∀ (consumeridcs : Finset Text) (mqAll : List MessageQueue)
    (cidAll : List Text), mqAll.Nodup → cidAll ≠ [] → cidAll.Nodup →
    ∃ result, DividedByRoom consumeridcs mqAll cidAll result := by
  intro h
  obtain ⟨result, hresult⟩ := h {['r']} foreignFirst [['c']] (by decide) (List.cons_ne_nil _ _)
    (List.nodup_singleton _)
  have hok := hresult.ok ['c'] (List.mem_singleton_self _)
  have hallocate : allocateByMachineRoom {['r']} ['c'] foreignFirst [['c']] =
      some [⟨[], ['o', '@', 'b'], 0⟩] := by decide
  have heq := Option.some.inj (hallocate.symm.trans hok)
  have hroom := (hresult.union ⟨[], ['o', '@', 'b'], 0⟩).mp
    ⟨['c'], List.mem_singleton_self _, heq ▸ List.mem_singleton_self _⟩
  exact absurd (inRooms_iff_or.mpr (.inl hroom.2)) (by decide)

end CloudMQ.Strategies
