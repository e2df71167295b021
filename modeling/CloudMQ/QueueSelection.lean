import CloudMQ.TopicRoutes

/-!
The queue a producer sends to: the queues of a topic in turn, or one of another broker.

The turn is a counter that is incremented for ever. Its absolute value modulo the number of queues
is a position in the list; where the counter changes its sign, by counting up through `0` or by
running over, the absolute values turn back and the positions repeat.
-/

namespace CloudMQ.QueueSelection

open CloudMQ.Utf8
open CloudMQ.TopicRoutes (MessageQueue)

/-- What a call may throw. -/
inductive Thrown
  | arithmeticException
  | arrayIndexOutOfBoundsException
deriving DecidableEq

/-- The queues of a topic, and whose turn it is. A list has as many entries as an `int` counts. -/
structure TopicPublishInfo extends TopicRoutes.TopicPublishInfo where
  sendWhichQueue : Int32 := 0
  size_lt : messageQueueList.length < 2 ^ 31

/-- `messageQueueList.get(pos)`. -/
def get (qs : List MessageQueue) (pos : ℤ) : Except Thrown MessageQueue :=
  if pos < 0 then .error .arrayIndexOutOfBoundsException
  else match qs[pos.toNat]? with
    | none => .error .arrayIndexOutOfBoundsException
    | some mq => .ok mq

/-- The queue at `Math.abs(index) % size`; the absolute value of the least integer is negative. -/
def queueAt (qs : List MessageQueue) (index : Int32) : Except Thrown MessageQueue :=
  if qs.length = 0 then .error .arithmeticException
  else get qs ((Int32.abs index).toInt.tmod qs.length)

/-- The loop of `selectOneMessageQueue`, with so many iterations left. -/
def selectOther (qs : List MessageQueue) (lastBrokerName : Text) :
    ℕ → Int32 → Except Thrown (Option MessageQueue)
  | 0, _ => .ok none
  | i + 1, index =>
    match queueAt qs index with
    | .error e => .error e
    | .ok mq =>
      if mq.brokerName ≠ lastBrokerName then .ok (some mq)
      else selectOther qs lastBrokerName i (index + 1)

/-- What the call returns, and the counter after it. -/
def selectOneMessageQueue (lastBrokerName : Option Text) (info : TopicPublishInfo) :
    Except Thrown (Option MessageQueue) × TopicPublishInfo :=
  let index := info.sendWhichQueue
  let qs := info.messageQueueList
  (match lastBrokerName with
    | some name => selectOther qs name qs.length index
    | none => (queueAt qs index).map some,
   { info with sendWhichQueue := index + 1 })

/-- What so many calls without a last broker return, one after the other. -/
def calls : ℕ → TopicPublishInfo → List (Except Thrown (Option MessageQueue))
  | 0, _ => []
  | m + 1, info =>
    (selectOneMessageQueue none info).1 :: calls m (selectOneMessageQueue none info).2

/-! ### Where the counter turns -/

/-- The number of calls before the counter stands at `0` or at the least integer. -/
def toTurn (index : Int32) : ℕ :=
  if 0 < index.toInt then (2 ^ 31 - index.toInt).toNat
  else if index = Int32.minValue then 0
  else (-index.toInt).toNat

/-- The counter passes the turn at `0`, and not the one at the least integer. -/
def TurnsAtZero (index : Int32) : Prop := index.toInt ≤ 0 ∧ index ≠ Int32.minValue

instance (index : Int32) : Decidable (TurnsAtZero index) :=
  inferInstanceAs (Decidable (_ ∧ _))

variable {qs : List MessageQueue} {index : Int32} {i m n : ℕ}

lemma toInt_add_ofNat (hi : i < 2 ^ 31) :
    (index + Int32.ofNat i).toInt =
      if index.toInt + i < 2 ^ 31 then index.toInt + i else index.toInt + i - 2 ^ 32 := by
  have h1 := index.toInt_lt
  have h2 := index.le_toInt
  rw [Int32.toInt_add, Int32.toInt_ofNat_of_lt hi, Int.bmod_def]
  split <;> split <;> omega

/-- The absolute value of every integer but the least. -/
lemma toInt_abs {a : Int32} (h : a ≠ Int32.minValue) : (Int32.abs a).toInt = |a.toInt| := by
  have hmin : a.toBitVec ≠ BitVec.intMin 32 := fun he => h (Int32.toBitVec_inj.mp he)
  rw [← Int32.toInt_toBitVec, Int32.toBitVec_abs,
    BitVec.toInt_abs_eq_natAbs_of_ne_intMin hmin, Int32.toInt_toBitVec, Int.natCast_natAbs]

lemma toInt_abs_minValue : (Int32.abs Int32.minValue).toInt = -2 ^ 31 := rfl

lemma eq_minValue_iff {a : Int32} : a = Int32.minValue ↔ a.toInt = -2 ^ 31 := by
  rw [← Int32.toInt_inj, Int32.toInt_minValue]

lemma get_natCast (hm : m < qs.length) : get qs (m : ℤ) = .ok qs[m] := by
  simp [get, hm]

/-- A counter that is not the least integer. -/
lemma queueAt_eq {a : Int32} (hne : a ≠ Int32.minValue) (habs : |a.toInt| = m)
    (hi : m % qs.length = i) (hlt : i < qs.length) : queueAt qs a = .ok qs[i] := by
  have hpos : 0 < qs.length := by omega
  rw [queueAt, if_neg (by omega), toInt_abs hne, habs,
    Int.tmod_eq_emod_of_nonneg (by omega), ← Int.natCast_emod, hi, get_natCast hlt]

/-- At the least integer a number of queues that divides it gives the first. -/
lemma queueAt_minValue (hdvd : qs.length ∣ 2 ^ 31) (hpos : 0 < qs.length) :
    queueAt qs Int32.minValue = .ok qs[0] := by
  have hz : (-2 ^ 31 : ℤ).tmod qs.length = ((0 : ℕ) : ℤ) :=
    Int.tmod_eq_zero_of_dvd (dvd_neg.mpr (mod_cast hdvd))
  rw [queueAt, if_neg (by omega), toInt_abs_minValue, hz, get_natCast hpos]

/-- Any other number of queues gives a negative position. -/
lemma queueAt_minValue_error (hdvd : ¬qs.length ∣ 2 ^ 31) (hpos : 0 < qs.length) :
    queueAt qs Int32.minValue = .error .arrayIndexOutOfBoundsException := by
  have hneg : (-2 ^ 31 : ℤ).tmod qs.length < 0 := by
    have hz : (2 ^ 31 : ℤ).tmod qs.length ≠ 0 := fun h =>
      hdvd (mod_cast Int.dvd_of_tmod_eq_zero h)
    have hge : 0 ≤ (2 ^ 31 : ℤ).tmod qs.length := Int.tmod_nonneg _ (by omega)
    rw [Int.neg_tmod]
    omega
  rw [queueAt, if_neg (by omega), toInt_abs_minValue, get, if_pos hneg]

/-! ### The queues of consecutive calls -/

/-- The queues at so many counters from `index` on. -/
def visits (qs : List MessageQueue) (m : ℕ) (index : Int32) : List (Except Thrown MessageQueue) :=
  (List.range m).map fun i => queueAt qs (index + Int32.ofNat i)

@[simp] lemma length_visits : (visits qs m index).length = m := by simp [visits]

lemma visits_succ : visits qs (m + 1) index = queueAt qs index :: visits qs m (index + 1) := by
  have h (i : ℕ) : index + Int32.ofNat (i + 1) = index + 1 + Int32.ofNat i := by
    rw [Int32.add_assoc, Int32.add_comm 1, Int32.ofNat_add]
    rfl
  simp only [visits, List.range_succ_eq_map, List.map_cons, List.map_map, Function.comp_def,
    Nat.succ_eq_add_one, h]
  rw [show Int32.ofNat 0 = 0 from rfl, Int32.add_zero]

lemma calls_eq (info : TopicPublishInfo) :
    calls m info =
      (visits info.messageQueueList m info.sendWhichQueue).map (Except.map some) := by
  induction m generalizing info with
  | zero => rfl
  | succ m ih =>
    rw [calls, ih, visits_succ]
    rfl

/-- A list is what the calls visit when each of its entries is. -/
lemma visits_eq {l : List MessageQueue} (hlen : l.length = m)
    (h : ∀ (i : ℕ) (hi : i < l.length), queueAt qs (index + Int32.ofNat i) = .ok l[i]) :
    visits qs m index = l.map .ok := by
  refine List.ext_getElem (by simp [hlen]) fun i h1 h2 => ?_
  simp only [visits, List.getElem_map, List.getElem_range]
  exact h i (by simpa using h2)

/-- Below `0` the absolute values count down to it, and up again. -/
lemma abs_of_turnsAtZero (h : TurnsAtZero index) (hi : i < 2 ^ 31) :
    index + Int32.ofNat i ≠ Int32.minValue ∧
      |(index + Int32.ofNat i).toInt| = |(toTurn index : ℤ) - i| := by
  obtain ⟨hle, hne⟩ := h
  have hge := index.le_toInt
  have hmin : index.toInt ≠ -2 ^ 31 := fun h => hne (eq_minValue_iff.mpr h)
  have ht : (toTurn index : ℤ) = -index.toInt := by
    rw [toTurn, if_neg (by omega), if_neg hne]
    omega
  have hint : (index + Int32.ofNat i).toInt = index.toInt + i := by
    rw [toInt_add_ofNat hi, if_pos (by omega)]
  refine ⟨fun h => ?_, ?_⟩
  · rw [eq_minValue_iff] at h
    omega
  · rw [hint, ht, abs_sub_comm]
    congr 1
    ring

/-- The call at which the counter is the least integer. -/
lemma add_toTurn (h : ¬TurnsAtZero index) :
    index + Int32.ofNat (toTurn index) = Int32.minValue := by
  have hlt := index.toInt_lt
  by_cases hpos : 0 < index.toInt
  · have ht : toTurn index = (2 ^ 31 - index.toInt).toNat := by rw [toTurn, if_pos hpos]
    rw [eq_minValue_iff, toInt_add_ofNat (by omega), if_neg (by omega)]
    omega
  · have hmin : index = Int32.minValue := by
      by_contra hne
      exact h ⟨by omega, hne⟩
    have ht : toTurn index = 0 := by rw [toTurn, if_neg hpos, if_pos hmin]
    rw [ht, hmin]
    rfl

/-- Before and after the least integer the absolute values are less than that of it. -/
lemma abs_of_not_turnsAtZero (h : ¬TurnsAtZero index) (hi : i < 2 ^ 31)
    (hne : i ≠ toTurn index) :
    index + Int32.ofNat i ≠ Int32.minValue ∧
      |(index + Int32.ofNat i).toInt| = 2 ^ 31 - |(toTurn index : ℤ) - i| := by
  have hlt := index.toInt_lt
  have hint := @toInt_add_ofNat index i hi
  by_cases hpos : 0 < index.toInt
  · have ht : (toTurn index : ℤ) = 2 ^ 31 - index.toInt := by
      rw [toTurn, if_pos hpos]
      omega
    rw [ne_eq, eq_minValue_iff, hint]
    split
    case isTrue h =>
      rw [abs_of_nonneg (by omega), abs_of_nonneg (by omega)]
      omega
    case isFalse h =>
      rw [abs_of_nonpos (by omega), abs_of_nonpos (by omega)]
      omega
  · have hmin : index = Int32.minValue := by
      by_contra hne
      exact h ⟨by omega, hne⟩
    have ht : toTurn index = 0 := by rw [toTurn, if_neg hpos, if_pos hmin]
    have hx := eq_minValue_iff.mp hmin
    rw [ne_eq, eq_minValue_iff, hint, if_pos (by omega), abs_of_nonpos (by omega),
      abs_of_nonpos (by omega)]
    omega

section Turns

variable (hsize : qs.length < 2 ^ 31)

include hsize

/-- Counting up to `0`, without passing it. -/
lemma visits_down (hzero : TurnsAtZero index) (hn : qs.length ≤ toTurn index + 1) :
    visits qs qs.length index =
      (qs.rotate (toTurn index + 1 - qs.length)).reverse.map .ok := by
  refine visits_eq (by simp) fun i hi => ?_
  simp only [List.length_reverse, List.length_rotate] at hi
  obtain ⟨hne, habs⟩ := abs_of_turnsAtZero (i := i) hzero (by omega)
  simp only [List.getElem_reverse, List.getElem_rotate, List.length_rotate]
  refine queueAt_eq (m := toTurn index - i) hne ?_ ?_ _
  · rw [habs, abs_of_nonneg (by omega)]
    omega
  · congr 1
    omega

/-- Counting up through `0`. -/
lemma visits_zero (hzero : TurnsAtZero index) (ht : toTurn index < qs.length) :
    visits qs qs.length index =
      ((qs.take (toTurn index + 1)).reverse ++
        (qs.drop 1).take (qs.length - 1 - toTurn index)).map .ok := by
  refine visits_eq (by simp; omega) fun i hi => ?_
  have hlen : i < qs.length := by
    simp at hi
    omega
  obtain ⟨hne, habs⟩ := abs_of_turnsAtZero (i := i) hzero (by omega)
  rw [List.getElem_append]
  split
  case isTrue h =>
    simp only [List.length_reverse, List.length_take] at h
    simp only [List.getElem_reverse, List.getElem_take, List.length_take]
    refine queueAt_eq (m := toTurn index - i) hne ?_ ?_ _
    · rw [habs, abs_of_nonneg (by omega)]
      omega
    · rw [Nat.mod_eq_of_lt (by omega)]
      omega
  case isFalse h =>
    simp only [List.length_reverse, List.length_take] at h
    simp only [List.getElem_take, List.getElem_drop, List.length_reverse, List.length_take]
    refine queueAt_eq (m := i - toTurn index) hne ?_ ?_ _
    · rw [habs, abs_of_nonpos (by omega)]
      omega
    · rw [Nat.mod_eq_of_lt (by omega)]
      omega

/-- Counting up from a positive counter, before it runs over. -/
lemma visits_up (hup : ¬TurnsAtZero index) (hm : m ≤ toTurn index) (hn : m ≤ qs.length) :
    visits qs m index = ((qs.rotate index.toInt.toNat).take m).map .ok := by
  refine visits_eq (by simp [hn]) fun i hi => ?_
  simp only [List.length_take, List.length_rotate] at hi
  obtain ⟨hne, habs⟩ := abs_of_not_turnsAtZero (i := i) hup (by omega) (by omega)
  have hpos : 0 < index.toInt := by
    by_contra h
    rw [toTurn, if_neg h] at hm
    by_cases hmin : index = Int32.minValue
    · rw [if_pos hmin] at hm
      omega
    · exact hup ⟨by omega, hmin⟩
  have hlt := index.toInt_lt
  have ht : toTurn index = (2 ^ 31 - index.toInt).toNat := by rw [toTurn, if_pos hpos]
  rw [List.getElem_take, List.getElem_rotate]
  refine queueAt_eq (m := i + index.toInt.toNat) hne ?_ rfl _
  rw [habs, abs_of_nonneg (by omega)]
  omega

/-- Running over, when the number of queues divides the least integer. -/
lemma visits_over (hup : ¬TurnsAtZero index) (hdvd : qs.length ∣ 2 ^ 31)
    (ht : toTurn index < qs.length) :
    visits qs qs.length index =
      (qs.drop (qs.length - toTurn index) ++ qs.take 1 ++
        (qs.drop (toTurn index + 1)).reverse).map .ok := by
  have hmod {j : ℕ} (h1 : 0 < j) (h2 : j < qs.length) :
      (2 ^ 31 - j) % qs.length = qs.length - j := by
    obtain ⟨c, hc⟩ := hdvd
    have hc0 : 0 < c := by
      rcases Nat.eq_zero_or_pos c with rfl | h
      · omega
      · exact h
    obtain ⟨d, rfl⟩ := Nat.exists_eq_succ_of_ne_zero hc0.ne'
    have hsum : 2 ^ 31 - j = (qs.length - j) + qs.length * d := by
      rw [hc, Nat.mul_succ]
      omega
    rw [hsum, Nat.add_mul_mod_self_left, Nat.mod_eq_of_lt (by omega)]
  refine visits_eq (by simp; omega) fun i hi => ?_
  have hlen : i < qs.length := by
    simp at hi
    omega
  simp only [List.getElem_append, List.length_append, List.length_drop, List.length_take,
    List.getElem_drop, List.getElem_take, List.getElem_reverse]
  rcases Nat.lt_trichotomy i (toTurn index) with h | h | h
  · obtain ⟨hne, habs⟩ := abs_of_not_turnsAtZero (i := i) hup (by omega) (by omega)
    rw [dif_pos (by omega), dif_pos (by omega)]
    refine queueAt_eq (m := 2 ^ 31 - (toTurn index - i)) hne ?_ ?_ _
    · rw [habs, abs_of_nonneg (by omega)]
      omega
    · rw [hmod (by omega) (by omega)]
      omega
  · rw [dif_pos (by omega), dif_neg (by omega)]
    subst h
    simp only [add_toTurn hup, queueAt_minValue hdvd (by omega : 0 < qs.length),
      Nat.sub_sub_self ht.le, Nat.sub_self]
  · obtain ⟨hne, habs⟩ := abs_of_not_turnsAtZero (i := i) hup (by omega) (by omega)
    rw [dif_neg (by omega)]
    refine queueAt_eq (m := 2 ^ 31 - (i - toTurn index)) hne ?_ ?_ _
    · rw [habs, abs_of_nonpos (by omega)]
      omega
    · rw [hmod (by omega) (by omega)]
      omega

end Turns

/-! ### What a round of calls visits -/

/-- How many positions a round visits twice, and as many not at all. -/
def repeated (n : ℕ) (index : Int32) : ℕ := min (toTurn index) (n - 1 - toTurn index)

/-- No position of a round is negative. -/
def Safe (n : ℕ) (index : Int32) : Prop :=
  n ∣ 2 ^ 31 ∨ TurnsAtZero index ∨ n ≤ toTurn index

instance (n : ℕ) (index : Int32) : Decidable (Safe n index) :=
  inferInstanceAs (Decidable (_ ∨ _))

/-- The queues of a round, up to the first negative position. -/
def reached (qs : List MessageQueue) (index : Int32) : List MessageQueue :=
  let k := repeated qs.length index
  if ¬Safe qs.length index then (qs.rotate index.toInt.toNat).take (toTurn index)
  else if TurnsAtZero index then qs.take (qs.length - k)
  else qs.take 1 ++ qs.drop (k + 1)

lemma drop_one_eq (k : ℕ) : qs.drop 1 = (qs.drop 1).take k ++ qs.drop (k + 1) := by
  rw [Nat.add_comm k, ← List.drop_drop, List.take_append_drop]

lemma take_succ_eq (k : ℕ) : qs.take (k + 1) = qs.take 1 ++ (qs.drop 1).take k := by
  rw [Nat.add_comm k, List.take_add]

/-- A round that passes `0` misses the last queues. -/
lemma perm_zero {t k : ℕ} (ht : t < qs.length) (hk : k = min t (qs.length - 1 - t)) :
    ((qs.take (t + 1)).reverse ++ (qs.drop 1).take (qs.length - 1 - t)).Perm
      (qs.take (qs.length - k) ++ (qs.drop 1).take k) := by
  refine ((List.reverse_perm _).append_right _).trans ?_
  rcases Nat.le_total t (qs.length - 1 - t) with h | h
  · have hkt : k = t := by omega
    have hn : qs.length - k = (qs.length - 1 - t) + 1 := by omega
    rw [hn, take_succ_eq t, take_succ_eq (qs.length - 1 - t), hkt, List.append_assoc,
      List.append_assoc]
    exact List.perm_append_comm.append_left _
  · have hkt : k = qs.length - 1 - t := by omega
    have hn : qs.length - k = t + 1 := by omega
    rw [hn, hkt]

/-- A round that runs over misses the queues after the first. -/
lemma perm_over {t k : ℕ} (ht : t < qs.length) (hk : k = min t (qs.length - 1 - t)) :
    (qs.drop (qs.length - t) ++ qs.take 1 ++ (qs.drop (t + 1)).reverse).Perm
      (qs.take 1 ++ qs.drop (k + 1) ++ qs.drop (qs.length - k)) := by
  refine ((List.reverse_perm _).append_left _).trans ?_
  rcases Nat.le_total t (qs.length - 1 - t) with h | h
  · have hkt : k = t := by omega
    rw [hkt, List.append_assoc]
    exact List.perm_append_comm
  · have hk1 : qs.length - t = k + 1 := by omega
    have hk2 : t + 1 = qs.length - k := by omega
    rw [hk1, hk2]
    exact List.perm_append_comm.append_right _

/-- What a round visits in which nothing is thrown. -/
lemma visits_safe (hsize : qs.length < 2 ^ 31) (hpos : 0 < qs.length)
    (hsafe : Safe qs.length index) :
    ∃ l : List MessageQueue, visits qs qs.length index = l.map .ok ∧
      (∀ mq, mq ∈ l ↔ mq ∈ reached qs index) ∧
      (l.Perm qs ↔ ((qs.drop 1).take (repeated qs.length index)).Perm
        (qs.drop (qs.length - repeated qs.length index))) := by
  obtain ⟨k, hk⟩ : ∃ k, k = repeated qs.length index := ⟨_, rfl⟩
  have hle : k + 1 ≤ qs.length - k := by
    rw [hk, repeated]
    omega
  rw [reached, if_neg (not_not.mpr hsafe), ← hk]
  by_cases hzero : TurnsAtZero index
  · rw [if_pos hzero]
    by_cases ht : toTurn index < qs.length
    · have hperm := perm_zero ht hk
      refine ⟨_, visits_zero hsize hzero ht, fun mq => ?_, ?_⟩
      · have hsub : (qs.drop 1).take k ⊆ qs.take (qs.length - k) := fun q hq => by
          refine List.take_subset_take_left qs hle ?_
          rw [take_succ_eq]
          exact List.mem_append_right _ hq
        rw [hperm.mem_iff, List.mem_append, or_iff_left_of_imp (@hsub mq)]
      · have hqs : (qs.take (qs.length - k) ++ qs.drop (qs.length - k)).Perm qs := by
          rw [List.take_append_drop]
        rw [hperm.congr_left, List.perm_comm, ← hqs.congr_left, List.perm_append_left_iff,
          List.perm_comm]
    · have hk0 : k = 0 := by
        rw [hk, repeated]
        omega
      refine ⟨_, visits_down hsize hzero (by omega), fun mq => ?_, ?_⟩
      · simp [hk0]
      · simp [hk0, List.rotate_perm]
  · rw [if_neg hzero]
    by_cases ht : toTurn index < qs.length
    · have hdvd : qs.length ∣ 2 ^ 31 := by
        rcases hsafe with h | h | h
        · exact h
        · exact absurd h hzero
        · omega
      have hperm := perm_over ht hk
      refine ⟨_, visits_over hsize hzero hdvd ht, fun mq => ?_, ?_⟩
      · have hsub : qs.drop (qs.length - k) ⊆ qs.drop (k + 1) := fun q hq => by
          rw [← Nat.add_sub_cancel' hle, ← List.drop_drop] at hq
          exact List.mem_of_mem_drop hq
        rw [hperm.mem_iff, List.mem_append, or_iff_left_of_imp]
        exact fun h => List.mem_append_right _ (hsub h)
      · have hqs : (qs.take 1 ++ qs.drop (k + 1) ++ (qs.drop 1).take k).Perm qs := by
          conv_rhs => rw [← List.take_append_drop 1 qs, drop_one_eq k]
          rw [List.append_assoc]
          exact List.perm_append_comm.append_left _
        rw [hperm.congr_left, List.perm_comm, ← hqs.congr_left, List.perm_append_left_iff]
    · have hk0 : k = 0 := by
        rw [hk, repeated]
        omega
      have hup := visits_up hsize hzero (m := qs.length) (by omega) le_rfl
      rw [List.take_of_length_le (List.length_rotate _ _).le] at hup
      refine ⟨_, hup, fun mq => ?_, ?_⟩
      · rw [List.mem_rotate, hk0, List.take_append_drop]
      · simp [hk0, List.rotate_perm]

/-- The loop runs along what it visits, until a queue of another broker comes. -/
lemma selectOther_eq {lastBrokerName : Text} {l : List MessageQueue} (hm : m ≤ n)
    (h : visits qs m index = l.map .ok) :
    selectOther qs lastBrokerName n index =
      match l.find? (·.brokerName ≠ lastBrokerName) with
      | some mq => .ok (some mq)
      | none => selectOther qs lastBrokerName (n - m) (index + Int32.ofNat m) := by
  induction m generalizing index l n with
  | zero =>
    cases l with
    | nil =>
      rw [List.find?_nil, show Int32.ofNat 0 = 0 from rfl, Int32.add_zero, Nat.sub_zero]
    | cons mq l => simp [visits] at h
  | succ m ih =>
    obtain ⟨n, rfl⟩ := Nat.exists_eq_succ_of_ne_zero (by omega : n ≠ 0)
    rw [visits_succ] at h
    cases l with
    | nil => simp at h
    | cons mq l =>
      rw [List.map_cons, List.cons.injEq] at h
      rw [selectOther, h.1]
      simp only
      by_cases hb : mq.brokerName = lastBrokerName
      · rw [List.find?_cons_of_neg (by simpa using hb), if_neg (by simpa using hb),
          ih (by omega) h.2, Nat.succ_sub_succ]
        have hs : index + 1 + Int32.ofNat m = index + Int32.ofNat (m + 1) := by
          rw [Int32.add_assoc, Int32.add_comm 1, Int32.ofNat_add]
          rfl
        rw [hs]
      · rw [List.find?_cons_of_pos (by simpa using hb), if_pos hb]

/-! ### What the call is for -/

/-- With a last broker: a queue of another one if there is any, and else `null`. Without: this call
and those after it, as many as there are queues, return each queue once. -/
def Selects (lastBrokerName : Option Text) (info : TopicPublishInfo) : Prop :=
  match lastBrokerName with
  | some name => ∃ r, (selectOneMessageQueue (some name) info).1 = .ok r ∧
      (∀ mq, r = some mq → mq ∈ info.messageQueueList ∧ mq.brokerName ≠ name) ∧
      (r = none → ∀ mq ∈ info.messageQueueList, mq.brokerName = name)
  | none => (calls info.messageQueueList.length info).Perm
      (info.messageQueueList.map fun mq => .ok (some mq))

/-- The counters from which it is so: the round has no negative position; with a last broker it
reaches some queue of another one, and without the queues it visits twice are those it misses. -/
def Favourable (lastBrokerName : Option Text) (info : TopicPublishInfo) : Prop :=
  let qs := info.messageQueueList
  let k := repeated qs.length info.sendWhichQueue
  match lastBrokerName with
  | some name =>
    if ∃ mq ∈ qs, mq.brokerName ≠ name then
      ∃ mq ∈ reached qs info.sendWhichQueue, mq.brokerName ≠ name
    else Safe qs.length info.sendWhichQueue
  | none => Safe qs.length info.sendWhichQueue ∧ ((qs.drop 1).take k).Perm (qs.drop (qs.length - k))

/-- A round that meets no turn is favourable. -/
lemma favourable_of_repeated {info : TopicPublishInfo}
    (hsafe : Safe info.messageQueueList.length info.sendWhichQueue)
    (hk : repeated info.messageQueueList.length info.sendWhichQueue = 0)
    (lastBrokerName : Option Text) : Favourable lastBrokerName info := by
  cases lastBrokerName with
  | none => simp [Favourable, hsafe, hk]
  | some name =>
    rw [Favourable]
    split
    case isFalse => exact hsafe
    case isTrue hother =>
      obtain ⟨mq, hmem, hb⟩ := hother
      refine ⟨mq, ?_, hb⟩
      rw [reached, if_neg (not_not.mpr hsafe), hk]
      split
      · rwa [Nat.sub_zero, List.take_length]
      · rwa [List.take_append_drop]

/-- Far enough from the turns every counter is favourable. -/
theorem favourable_of_far {info : TopicPublishInfo}
    (h : info.messageQueueList.length ≤ toTurn info.sendWhichQueue)
    (lastBrokerName : Option Text) : Favourable lastBrokerName info := by
  refine favourable_of_repeated (.inr (.inr h)) ?_ lastBrokerName
  rw [repeated]
  omega

/-- For one or two queues every counter is. -/
theorem favourable_of_length_le_two {info : TopicPublishInfo} (hne : info.messageQueueList ≠ [])
    (h : info.messageQueueList.length ≤ 2) (lastBrokerName : Option Text) :
    Favourable lastBrokerName info := by
  have hpos := List.length_pos_iff.mpr hne
  have hdvd : info.messageQueueList.length ∣ 2 ^ 31 := by
    interval_cases info.messageQueueList.length <;> decide
  refine favourable_of_repeated (.inl hdvd) ?_ lastBrokerName
  rw [repeated]
  omega

/-- A round that is not safe comes to the least integer. -/
lemma visits_throwing (hsize : qs.length < 2 ^ 31) (hpos : 0 < qs.length)
    (hthrows : ¬Safe qs.length index) :
    toTurn index < qs.length ∧
      visits qs (toTurn index) index = (reached qs index).map .ok ∧
      queueAt qs (index + Int32.ofNat (toTurn index)) =
        .error .arrayIndexOutOfBoundsException := by
  have hsplit := hthrows
  rw [Safe, not_or, not_or, not_le] at hsplit
  obtain ⟨hdvd, hup, hlt⟩ := hsplit
  refine ⟨hlt, ?_, ?_⟩
  · rw [reached, if_pos hthrows]
    exact visits_up hsize hup le_rfl hlt.le
  · rw [add_toTurn hup, queueAt_minValue_error hdvd hpos]

lemma reached_subset : reached qs index ⊆ qs := by
  intro mq h
  rw [reached] at h
  split at h
  · exact List.mem_rotate.mp (List.mem_of_mem_take h)
  · split at h
    · exact List.mem_of_mem_take h
    · rcases List.mem_append.mp h with h | h
      · exact List.mem_of_mem_take h
      · exact List.mem_of_mem_drop h

lemma find?_eq_none {name : Text} {l : List MessageQueue} :
    l.find? (·.brokerName ≠ name) = none ↔ ∀ mq ∈ l, mq.brokerName = name := by
  simp

/-- The loop returns the first queue of another broker that the round reaches. -/
lemma selectOther_spec (hsize : qs.length < 2 ^ 31) (hpos : 0 < qs.length) (name : Text) :
    (∃ mq ∈ reached qs index, mq.brokerName ≠ name ∧
      selectOther qs name qs.length index = .ok (some mq)) ∨
    (∀ mq ∈ reached qs index, mq.brokerName = name) ∧
      selectOther qs name qs.length index =
        if Safe qs.length index then .ok none else .error .arrayIndexOutOfBoundsException := by
  by_cases hsafe : Safe qs.length index
  · obtain ⟨l, hl, hmem, -⟩ := visits_safe hsize hpos hsafe
    rw [selectOther_eq le_rfl hl]
    cases hf : l.find? (·.brokerName ≠ name) with
    | some mq =>
      left
      exact ⟨mq, (hmem mq).mp (List.mem_of_find?_eq_some hf), by
        simpa using List.find?_some hf, rfl⟩
    | none =>
      right
      refine ⟨fun mq h => find?_eq_none.mp hf mq ((hmem mq).mpr h), ?_⟩
      rw [if_pos hsafe, Nat.sub_self]
      rfl
  · obtain ⟨hlt, hvisits, herr⟩ := visits_throwing hsize hpos hsafe
    rw [selectOther_eq hlt.le hvisits]
    cases hf : (reached qs index).find? (·.brokerName ≠ name) with
    | some mq =>
      left
      exact ⟨mq, List.mem_of_find?_eq_some hf, by simpa using List.find?_some hf, rfl⟩
    | none =>
      right
      refine ⟨find?_eq_none.mp hf, ?_⟩
      obtain ⟨d, hd⟩ := Nat.exists_eq_succ_of_ne_zero (Nat.sub_pos_of_lt hlt).ne'
      rw [if_neg hsafe, hd]
      simp only [selectOther, herr]

/-- A round without a last broker. -/
lemma perm_calls_iff (info : TopicPublishInfo) (hne : info.messageQueueList ≠ []) :
    Selects none info ↔ Favourable none info := by
  have hsize := info.size_lt
  have hpos := List.length_pos_iff.mpr hne
  rw [Selects, Favourable, calls_eq]
  by_cases hsafe : Safe info.messageQueueList.length info.sendWhichQueue
  · obtain ⟨l, hl, -, hperm⟩ := visits_safe hsize hpos hsafe
    have hinj : Function.Injective (fun mq : MessageQueue =>
        (Except.ok (some mq) : Except Thrown (Option MessageQueue))) := fun a b h => by
      simpa using h
    rw [hl, List.map_map, and_iff_right hsafe, ← hperm]
    exact List.map_perm_map_iff hinj
  · obtain ⟨hlt, -, herr⟩ := visits_throwing hsize hpos hsafe
    refine iff_of_false (fun h => ?_) fun h => hsafe h.1
    have hmem : (Except.error .arrayIndexOutOfBoundsException) ∈
        (visits info.messageQueueList info.messageQueueList.length info.sendWhichQueue).map
          (Except.map some) :=
      List.mem_map.mpr ⟨_, List.mem_map.mpr ⟨_, List.mem_range.mpr hlt, herr⟩, rfl⟩
    simpa using h.mem_iff.mp hmem

/-- **Selection.** The call does what it is for exactly from the favourable counters. -/
theorem rotation_iff (info : TopicPublishInfo) (hne : info.messageQueueList ≠ [])
    (lastBrokerName : Option Text) :
    Selects lastBrokerName info ↔ Favourable lastBrokerName info := by
  cases lastBrokerName with
  | none => exact perm_calls_iff info hne
  | some name =>
    have hspec := @selectOther_spec _ info.sendWhichQueue info.size_lt
      (List.length_pos_iff.mpr hne) name
    rw [Selects, Favourable]
    simp only [selectOneMessageQueue]
    rcases hspec with ⟨mq, hmem, hb, hsel⟩ | ⟨hall, hsel⟩
    · have hother : ∃ mq ∈ info.messageQueueList, mq.brokerName ≠ name :=
        ⟨mq, reached_subset hmem, hb⟩
      rw [if_pos hother, hsel]
      refine iff_of_true ⟨some mq, rfl, fun q hq => ?_, fun h => by simp at h⟩ ⟨mq, hmem, hb⟩
      obtain rfl := Option.some.inj hq
      exact ⟨reached_subset hmem, hb⟩
    · rw [hsel]
      have hnone : ¬∃ mq ∈ reached info.messageQueueList info.sendWhichQueue,
          mq.brokerName ≠ name := fun ⟨mq, h, hb⟩ => hb (hall mq h)
      by_cases hother : ∃ mq ∈ info.messageQueueList, mq.brokerName ≠ name
      · rw [if_pos hother]
        refine iff_of_false (fun ⟨r, hr, h1, h2⟩ => ?_) hnone
        obtain ⟨mq, hmem, hb⟩ := hother
        split at hr
        · obtain rfl := Except.ok.inj hr
          exact hb (h2 rfl mq hmem)
        · cases hr
      · rw [if_neg hother]
        refine ⟨fun ⟨r, hr, h1, h2⟩ => ?_, fun hsafe => ?_⟩
        · by_contra hsafe
          rw [if_neg hsafe] at hr
          cases hr
        · refine ⟨none, if_pos hsafe, fun mq h => by simp at h, fun _ mq hmem => ?_⟩
          by_contra hb
          exact hother ⟨mq, hmem, hb⟩

/-- Three queues of two brokers. -/
def brokerQueues : List MessageQueue :=
  [⟨"T".toList, "a".toList, 0⟩, ⟨"T".toList, "b".toList, 0⟩, ⟨"T".toList, "b".toList, 1⟩]

lemma brokerQueues_lt : brokerQueues.length < 2 ^ 31 := by decide

/-- A producer to the three queues, after so many calls. -/
def threeQueues (sendWhichQueue : Int32) : TopicPublishInfo where
  messageQueueList := brokerQueues
  sendWhichQueue := sendWhichQueue
  size_lt := brokerQueues_lt

/-- After seven calls the next goes to the other broker. -/
theorem selects_threeQueues : (threeQueues 7).messageQueueList ≠ [] ∧
    (Selects (some "b".toList) (threeQueues 7) ↔ Favourable (some "b".toList) (threeQueues 7)) :=
  ⟨by decide, rotation_iff (threeQueues 7) (by decide) (some "b".toList)⟩

/-- When the counter has run over, the next call throws. -/
theorem not_selects_minValue :
    ¬∀ (info : TopicPublishInfo) (lastBrokerName : Option Text), info.messageQueueList ≠ [] →
      Selects lastBrokerName info := by
  intro h
  have hperm := h (threeQueues Int32.minValue) none (by decide)
  have hthrown : .error .arrayIndexOutOfBoundsException ∈
      calls 3 (threeQueues Int32.minValue) := List.mem_cons_self
  have hmem := hperm.mem_iff.mp hthrown
  simp at hmem

end CloudMQ.QueueSelection
