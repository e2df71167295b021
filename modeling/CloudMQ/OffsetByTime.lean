import CloudMQ.Bisection
import CloudMQ.ExpiredEntries
import CloudMQ.MessageDecoder

/-!
`ConsumeQueue.getOffsetInQueueByTime`: the message of a queue that was stored closest to a time.

A file is chosen by the time it was last modified, and searched by bisection over its entries from
`minLogicOffset` on. The store time of an entry is read from the commit log; where that fails, the
answer is 0.

The search is modelled at byte positions, with the sums of the code, and follows a bisection over
numbers of entries.
-/

namespace CloudMQ.OffsetByTime

open CloudMQ.Buffer CloudMQ.Extents CloudMQ.Segment CloudMQ.Chain CloudMQ.Units
open CloudMQ.ConsumeQueues CloudMQ.QueueEntries CloudMQ.LogicFiles CloudMQ.ExpiredEntries
open CloudMQ.Bisection
open CloudMQ.MessageDecoder (getMessage)

/-! ### Store times -/

def MessageStoreTimestampPostion : ℕ := 56

/-- `CommitLog.getMinOffset` -/
def getMinOffset (q : MapedFileQueue Bytes) : ℤ :=
  match q.mapedFiles.head? with
  | none => -1
  | some f =>
    if f.available then f.fileFromOffset
    else f.fileFromOffset + q.mapedFileSize - f.fileFromOffset % q.mapedFileSize

/-- `getLong` at the place of the store time; `none` when the record is too short. -/
def storeTimestampOf (byteBuffer : Bytes) : Option Int64 :=
  (getLong.run (byteBuffer.drop MessageStoreTimestampPostion)).map Prod.fst

/-- `CommitLog.pickupStoretimestamp`; a record that is too short is an exception. -/
def pickupStoretimestamp (q : MapedFileQueue Bytes) (offset : Int64) (size : Int32) :
    Except Unit Int64 :=
  if getMinOffset q < offset.toInt then
    match getMessage q offset size with
    | .error e => .error e
    | .ok none => .ok (-1)
    | .ok (some byteBuffer) =>
      match storeTimestampOf byteBuffer with
      | none => .error ()
      | some storeTimestamp => .ok storeTimestamp
  else .ok (-1)

/-- The store time of the record of an entry, as long as the log has it. -/
def recordTime (q : MapedFileQueue Bytes) (u : CQUnit) : Option Int64 :=
  if getMinOffset q ≤ u.offset.toInt then
    match getMessage q u.offset u.size with
    | .ok (some byteBuffer) => storeTimestampOf byteBuffer
    | _ => none
  else none

/-! ### The search -/

/-- The bounds of the search and what it found on both sides; `-1` stands for nothing. -/
structure Bounds where
  low : ℤ
  high : ℤ
  leftOffset : ℤ := -1
  rightOffset : ℤ := -1
  leftIndexValue : Int64 := -1
  rightIndexValue : Int64 := -1
  deriving DecidableEq

inductive Search
  /-- no record was found for an entry -/
  | missing
  | target (midOffset : ℤ)
  | ended (b : Bounds)
  deriving DecidableEq

/-- The middle between two positions; the sum is that of two `int`s. -/
def midOffset (b : Bounds) : ℤ :=
  (Int.bmod (b.low + b.high) (2 ^ 32)).tdiv (2 * CQStoreUnitSize) * CQStoreUnitSize

/-- The loop over the entries of a file; `none` when it has not come to its end within so many
rounds. A position that the buffer does not have is an exception. -/
def searchLoop (pickup : Int64 → Int32 → Except Unit Int64) (timestamp : Int64)
    (us : List CQUnit) : ℕ → Bounds → Option (Except Unit Search)
  | 0, _ => none
  | fuel + 1, b =>
    if b.high < b.low then some (.ok (.ended b))
    else
      let mid := midOffset b
      match if mid < 0 then none else us[mid.toNat / CQStoreUnitSize]? with
      | none => some (.error ())
      | some u =>
        match pickup u.offset u.size with
        | .error e => some (.error e)
        | .ok storeTime =>
          if storeTime < 0 then some (.ok .missing)
          else if storeTime = timestamp then some (.ok (.target mid))
          else if timestamp < storeTime then
            searchLoop pickup timestamp us fuel
              { b with high := mid - CQStoreUnitSize, rightOffset := mid
                       rightIndexValue := storeTime }
          else
            searchLoop pickup timestamp us fuel
              { b with low := mid + CQStoreUnitSize, leftOffset := mid
                       leftIndexValue := storeTime }

/-- `Math.abs` of a `long` -/
def abs (a : Int64) : Int64 := if a < 0 then -a else a

/-- The closer of the two sides. -/
def closest (timestamp : Int64) (b : Bounds) : ℤ :=
  if b.leftIndexValue = -1 then b.rightOffset
  else if b.rightIndexValue = -1 then b.leftOffset
  else if abs (timestamp - b.rightIndexValue) < abs (timestamp - b.leftIndexValue) then
    b.rightOffset
  else b.leftOffset

/-- What the search comes to, in the file that begins at an offset. -/
def Search.answer (fileFromOffset : ℕ) (timestamp : Int64) : Search → ℤ
  | .missing => 0
  | .target mid => (fileFromOffset + mid).tdiv CQStoreUnitSize
  | .ended b => (fileFromOffset + closest timestamp b).tdiv CQStoreUnitSize

/-- `MapedFileQueue.getMapedFileByTime` -/
def getMapedFileByTime (lastModified : MapedFile (List CQUnit) → Int64) (timestamp : Int64)
    (q : MapedFileQueue (List CQUnit)) : Option (MapedFile (List CQUnit)) :=
  match q.mapedFiles.find? fun f => timestamp ≤ lastModified f with
  | some f => some f
  | none => q.mapedFiles.getLast?

/-- Where the search begins. -/
def startBounds (f : MapedFile (List CQUnit)) (minLogicOffset : ℕ) : Bounds where
  low := if f.fileFromOffset < minLogicOffset then
    Int.bmod ((minLogicOffset : ℤ) - f.fileFromOffset) (2 ^ 32) else 0
  high := (f.wrotePostion : ℤ) - CQStoreUnitSize

/-- `ConsumeQueue.getOffsetInQueueByTime` -/
def getOffsetInQueueByTime (log : MapedFileQueue Bytes)
    (lastModified : MapedFile (List CQUnit) → Int64) (timestamp : Int64) (fuel : ℕ)
    (cq : ConsumeQueue) : Option (Except Unit ℤ) :=
  match getMapedFileByTime lastModified timestamp cq.mapedFileQueue with
  | none => some (.ok 0)
  | some f =>
    match selectUnits 0 f with
    | none => some (.ok 0)
    | some us =>
      (searchLoop (pickupStoretimestamp log) timestamp us fuel
        (startBounds f cq.minLogicOffset)).map fun r =>
          r.map (Search.answer f.fileFromOffset timestamp)

/-! ### What is promised -/

/-- Entries from `minLogicOffset` on can be read, and their times do not fall. -/
structure Timed (log : MapedFileQueue Bytes) (cq : ConsumeQueue) : Prop extends InOrder cq where
  dvd_min : CQStoreUnitSize ∣ cq.minLogicOffset
  readable : ∀ p ∈ placed cq, cq.minLogicOffset ≤ p.2 →
    ∃ t, recordTime log p.1 = some t ∧ 0 ≤ t
  ascending : ∀ p ∈ placed cq, ∀ p' ∈ placed cq, cq.minLogicOffset ≤ p.2 → p.2 ≤ p'.2 →
    ∀ t ∈ recordTime log p.1, ∀ t' ∈ recordTime log p'.1, t ≤ t'

/-- The entries of a file from `minLogicOffset` on. -/
def retained (cq : ConsumeQueue) (f : MapedFile (List CQUnit)) : List (CQUnit × ℕ) :=
  (placedOf f).filter fun p => cq.minLogicOffset ≤ p.2

/-- A retained entry of the file with this number, and none was stored closer to the time. -/
def Nearest (log : MapedFileQueue Bytes) (timestamp : Int64) (cq : ConsumeQueue)
    (f : MapedFile (List CQUnit)) (k : ℤ) : Prop :=
  ∃ p ∈ retained cq f, (p.2 : ℤ) = CQStoreUnitSize * k ∧
    ∀ t ∈ recordTime log p.1, ∀ p' ∈ retained cq f, ∀ t' ∈ recordTime log p'.1,
      |timestamp.toInt - t.toInt| ≤ |timestamp.toInt - t'.toInt|

/-- The search comes to its end and answers with the number of a nearest entry of the file that is
chosen. -/
def Answers (log : MapedFileQueue Bytes) (lastModified : MapedFile (List CQUnit) → Int64)
    (timestamp : Int64) (cq : ConsumeQueue) : Prop :=
  ∃ f fuel k, getMapedFileByTime lastModified timestamp cq.mapedFileQueue = some f ∧
    getOffsetInQueueByTime log lastModified timestamp fuel cq = some (.ok k) ∧
    Nearest log timestamp cq f k

/-- The first retained entry of the file is that of the record the log begins with. -/
def StartsLog (log : MapedFileQueue Bytes) (cq : ConsumeQueue) (f : MapedFile (List CQUnit)) :
    Prop :=
  ∃ p ∈ (retained cq f).head?, p.1.offset.toInt = getMinOffset log

/-- The last entry that a search can look at before it comes to the first one was not stored after
the time. -/
def Stays (log : MapedFileQueue Bytes) (timestamp : Int64) (cq : ConsumeQueue)
    (f : MapedFile (List CQUnit)) : Prop :=
  0 < lowProbe (retained cq f).length ∧
    ∃ p ∈ (retained cq f)[lowProbe (retained cq f).length]?,
      ∃ t ∈ recordTime log p.1, t ≤ timestamp

/-- The chosen file has a retained entry; and the search does not come to the record the log begins
with, or the answer is 0. -/
structure Findable (log : MapedFileQueue Bytes) (timestamp : Int64) (cq : ConsumeQueue)
    (f : MapedFile (List CQUnit)) : Prop where
  ne_nil : retained cq f ≠ []
  clear : StartsLog log cq f → Stays log timestamp cq f ∨ Nearest log timestamp cq f 0

/-! ### Reading -/

section Reading

variable {log : MapedFileQueue Bytes} {u : CQUnit} {t : Int64}

/-- What the search reads for a record that the log has. -/
lemma pickup_of_recordTime (h : recordTime log u = some t) :
    pickupStoretimestamp log u.offset u.size =
      .ok (if getMinOffset log < u.offset.toInt then t else -1) := by
  unfold recordTime at h
  unfold pickupStoretimestamp
  split_ifs with hlt
  · rw [if_pos hlt.le] at h
    split at h
    · next bs hget => simp only [hget, h]
    · exact absurd h (by simp)
  · rfl

lemma le_of_recordTime (h : recordTime log u = some t) : getMinOffset log ≤ u.offset.toInt := by
  unfold recordTime at h
  split at h
  · next hle => exact hle
  · exact absurd h (by simp)

end Reading

/-! ### The search follows a bisection -/

section Following

variable {pickup : Int64 → Int32 → Except Unit Int64} {timestamp : Int64} {us : List CQUnit}
  {time : ℕ → Int64} {first n : ℕ}

/-- The bounds of a search over the entries `first` to `n` that has come to the entries `lo` to
`hi`. -/
def boundsAt (time : ℕ → Int64) (first n lo hi : ℕ) : Bounds where
  low := CQStoreUnitSize * lo
  high := CQStoreUnitSize * hi - CQStoreUnitSize
  leftOffset := if lo = first then -1 else CQStoreUnitSize * (lo - 1 : ℕ)
  rightOffset := if hi = n then -1 else CQStoreUnitSize * hi
  leftIndexValue := if lo = first then -1 else time (lo - 1)
  rightIndexValue := if hi = n then -1 else time hi

/-- What a read gives; a negative number is none. -/
def readTime (time : ℕ → Int64) (i : ℕ) : Option ℤ :=
  if time i < 0 then none else some (time i).toInt

def searchOf (time : ℕ → Int64) (first n : ℕ) : Outcome → Search
  | .missing _ => .missing
  | .found i => .target (CQStoreUnitSize * i)
  | .between k => .ended (boundsAt time first n k k)

lemma midOffset_boundsAt {lo hi : ℕ} (hlt : lo < hi) (hle : hi ≤ n)
    (hfits : CQStoreUnitSize * n ≤ 2 ^ 30) :
    midOffset (boundsAt time first n lo hi) = CQStoreUnitSize * (middle lo hi : ℕ) := by
  simp only [midOffset, boundsAt, middle, CQStoreUnitSize] at *
  rw [Int.bmod_eq_of_le (by omega) (by omega), Int.tdiv_eq_ediv_of_nonneg (by omega)]
  omega

/-- **Following.** The loop over positions goes the way of the bisection. -/
lemma searchLoop_follows (hfits : CQStoreUnitSize * n ≤ 2 ^ 30)
    (hread : ∀ i, first ≤ i → i < n →
      ∃ u, us[i]? = some u ∧ pickup u.offset u.size = .ok (time i)) {lo hi : ℕ}
    (hfirst : first ≤ lo) (hle : lo ≤ hi) (hn : hi ≤ n) (fuel : ℕ) :
    searchLoop pickup timestamp us fuel (boundsAt time first n lo hi) =
        some (.ok (searchOf time first n (bisect (readTime time) timestamp.toInt lo hi))) ∨
      fuel ≤ hi - lo ∧
        searchLoop pickup timestamp us fuel (boundsAt time first n lo hi) = none := by
  induction fuel generalizing lo hi with
  | zero => exact .inr ⟨Nat.zero_le _, rfl⟩
  | succ fuel ih =>
    by_cases hlt : lo < hi
    · obtain ⟨hlo, hhi⟩ := middle_lt hlt
      obtain ⟨u, hu, hpick⟩ := hread (middle lo hi) (by omega) (by omega)
      have hopen : ¬ (boundsAt time first n lo hi).high < (boundsAt time first n lo hi).low := by
        simp only [boundsAt, CQStoreUnitSize]
        omega
      have hmid := @midOffset_boundsAt time first n lo hi hlt hn hfits
      have hindex : (CQStoreUnitSize * (middle lo hi : ℕ) : ℤ).toNat / CQStoreUnitSize =
          middle lo hi := by
        simp only [CQStoreUnitSize]
        omega
      rw [searchLoop, if_neg hopen, bisect_eq hlt]
      simp only [hmid]
      rw [if_neg (by simp only [CQStoreUnitSize]; omega), hindex, hu]
      simp only [hpick]
      rw [readTime]
      by_cases hneg : time (middle lo hi) < 0
      · rw [if_pos hneg, if_pos hneg]
        exact .inl rfl
      rw [if_neg hneg, if_neg hneg]
      simp only [Int64.toInt_inj]
      by_cases heq : time (middle lo hi) = timestamp
      · rw [if_pos heq, if_pos heq]
        exact .inl rfl
      rw [if_neg heq, if_neg heq]
      by_cases hbelow : timestamp < time (middle lo hi)
      · rw [if_pos hbelow, if_pos (Int64.lt_iff_toInt_lt.mp hbelow)]
        have hbounds : { boundsAt time first n lo hi with
            high := (CQStoreUnitSize * (middle lo hi : ℕ) : ℤ) - CQStoreUnitSize
            rightOffset := (CQStoreUnitSize * (middle lo hi : ℕ) : ℤ)
            rightIndexValue := time (middle lo hi) } =
            boundsAt time first n lo (middle lo hi) := by
          simp only [boundsAt, if_neg (by omega : ¬ middle lo hi = n)]
        rw [hbounds]
        exact (ih hfirst hlo (by omega)).imp_right fun h => ⟨by omega, h.2⟩
      · rw [if_neg hbelow, if_neg fun h => hbelow (Int64.lt_iff_toInt_lt.mpr h)]
        have hbounds : { boundsAt time first n lo hi with
            low := (CQStoreUnitSize * (middle lo hi : ℕ) : ℤ) + CQStoreUnitSize
            leftOffset := (CQStoreUnitSize * (middle lo hi : ℕ) : ℤ)
            leftIndexValue := time (middle lo hi) } =
            boundsAt time first n (middle lo hi + 1) hi := by
          simp only [boundsAt, if_neg (by omega : ¬ middle lo hi + 1 = first),
            Nat.add_sub_cancel, CQStoreUnitSize]
          congr 1
        rw [hbounds]
        exact (ih (by omega) (by omega) hn).imp_right fun h => ⟨by omega, h.2⟩
    · have hended : (boundsAt time first n lo hi).high < (boundsAt time first n lo hi).low := by
        simp only [boundsAt, CQStoreUnitSize]
        omega
      obtain rfl : lo = hi := by omega
      rw [searchLoop, if_pos hended, bisect_empty le_rfl]
      exact .inl rfl

end Following

/-! ### What the search answers -/

section Answer

variable {timestamp : Int64} {time : ℕ → Int64} {stored : ℕ → ℤ} {first n : ℕ}

lemma toInt_abs_sub {a b : Int64} (h : |a.toInt - b.toInt| < 2 ^ 63) :
    (abs (a - b)).toInt = |a.toInt - b.toInt| := by
  obtain ⟨hlo, hhi⟩ := abs_lt.mp h
  have hsub : (a - b).toInt = a.toInt - b.toInt := by
    rw [Int64.toInt_sub, Int.bmod_eq_of_le (by omega) (by omega)]
  unfold abs
  split_ifs with hneg
  · rw [Int64.lt_iff_toInt_lt, hsub] at hneg
    change a.toInt - b.toInt < 0 at hneg
    rw [Int64.toInt_neg, hsub, Int.bmod_eq_of_le (by omega) (by omega), abs_of_neg hneg]
  · rw [Int64.lt_iff_toInt_lt, hsub] at hneg
    change ¬ a.toInt - b.toInt < 0 at hneg
    rw [hsub, abs_of_nonneg (by omega)]

lemma abs_sub_le_of_left {t x y : ℤ} (hxy : x ≤ y) (hy : y ≤ t) : |t - y| ≤ |t - x| := by
  rw [abs_of_nonneg (by omega), abs_of_nonneg (by omega)]
  omega

lemma abs_sub_le_of_right {t x y : ℤ} (hy : t ≤ y) (hxy : y ≤ x) : |t - y| ≤ |t - x| := by
  rw [abs_of_nonpos (by omega), abs_of_nonpos (by omega)]
  omega

/-- What is read is the time an entry was stored at. -/
lemma of_readTime (htime : ∀ i, first ≤ i → i < n → 0 ≤ time i → (time i).toInt = stored i) {i : ℕ}
    (hi : first ≤ i) (hn : i < n) {x : ℤ} (hx : x ∈ readTime time i) :
    time i ≠ -1 ∧ 0 ≤ (time i).toInt ∧ (time i).toInt = stored i ∧ x = stored i := by
  unfold readTime at hx
  split at hx
  · exact absurd hx (by simp)
  · next hneg =>
    have hnonneg : 0 ≤ time i := Int64.not_lt.mp hneg
    obtain rfl := Option.mem_some_iff.mp hx
    refine ⟨fun h => ?_, ?_, htime i hi hn hnonneg, htime i hi hn hnonneg⟩
    · rw [h] at hneg
      exact hneg (by decide)
    · exact Int64.le_iff_toInt_le.mp hnonneg

/-- Between two entries the closer one is taken, and at the ends the one there is. -/
lemma closest_spec (hasc : ∀ i j, first ≤ i → i ≤ j → j < n → stored i ≤ stored j)
    (htime : ∀ i, first ≤ i → i < n → 0 ≤ time i → (time i).toInt = stored i) (hne : first < n)
    {k : ℕ} (hends : Ends (readTime time) timestamp.toInt first n (.between k)) :
    ∃ j, first ≤ j ∧ j < n ∧
      closest timestamp (boundsAt time first n k k) = CQStoreUnitSize * j ∧
      ∀ i, first ≤ i → i < n → |timestamp.toInt - stored j| ≤ |timestamp.toInt - stored i| := by
  obtain ⟨hfirst, hn, hleft, hright⟩ := hends
  -- which of the two entries is the nearest one of those on its side
  have hbelow : first < k → stored (k - 1) < timestamp.toInt ∧ time (k - 1) ≠ -1 ∧
      0 ≤ (time (k - 1)).toInt ∧ (time (k - 1)).toInt = stored (k - 1) := by
    intro hk
    obtain ⟨x, hx, hlt⟩ := hleft hk
    obtain ⟨h1, h2, h3, rfl⟩ := of_readTime htime (by omega) (by omega) hx
    exact ⟨hlt, h1, h2, h3⟩
  have habove : k < n → timestamp.toInt < stored k ∧ time k ≠ -1 ∧ 0 ≤ (time k).toInt ∧
      (time k).toInt = stored k := by
    intro hk
    obtain ⟨x, hx, hlt⟩ := hright hk
    obtain ⟨h1, h2, h3, rfl⟩ := of_readTime htime (by omega) (by omega) hx
    exact ⟨hlt, h1, h2, h3⟩
  by_cases hk : k = first
  · subst hk
    obtain ⟨hlt, -⟩ := habove hne
    refine ⟨k, le_rfl, hne, ?_, fun i h1 h2 => ?_⟩
    · simp [closest, boundsAt, hne.ne]
    · exact abs_sub_le_of_right hlt.le (hasc k i le_rfl h1 h2)
  by_cases hkn : k = n
  · subst hkn
    obtain ⟨hlt, hvalue, -⟩ := hbelow (by omega)
    refine ⟨k - 1, by omega, by omega, ?_, fun i h1 h2 => ?_⟩
    · simp [closest, boundsAt, hk, hvalue]
    · exact abs_sub_le_of_left (hasc i (k - 1) h1 (by omega) (by omega)) hlt.le
  obtain ⟨hlt, hvalue, hzero, heq⟩ := hbelow (by omega)
  obtain ⟨hlt', hvalue', hzero', heq'⟩ := habove (by omega)
  have hmax := Int64.toInt_lt (time k)
  have habs : (abs (timestamp - time (k - 1))).toInt = timestamp.toInt - stored (k - 1) := by
    rw [toInt_abs_sub (by rw [abs_of_nonneg (by omega)]; omega), heq, abs_of_nonneg (by omega)]
  have habs' : (abs (timestamp - time k)).toInt = stored k - timestamp.toInt := by
    rw [toInt_abs_sub (by rw [abs_of_nonpos (by omega)]; omega), heq', abs_of_nonpos (by omega)]
    omega
  have hclosest : closest timestamp (boundsAt time first n k k) =
      if stored k - timestamp.toInt < timestamp.toInt - stored (k - 1) then
        CQStoreUnitSize * (k : ℤ) else CQStoreUnitSize * ((k - 1 : ℕ) : ℤ) := by
    simp only [closest, boundsAt, if_neg hk, if_neg hkn, if_neg hvalue, if_neg hvalue',
      Int64.lt_iff_toInt_lt, habs, habs']
  rw [hclosest]
  split_ifs with hcloser
  · refine ⟨k, by omega, by omega, rfl, fun i h1 h2 => ?_⟩
    by_cases hik : i < k
    · have := hasc i (k - 1) h1 (by omega) (by omega)
      rw [abs_of_nonpos (by omega), abs_of_nonneg (by omega)]
      omega
    · exact abs_sub_le_of_right hlt'.le (hasc k i (by omega) (by omega) h2)
  · refine ⟨k - 1, by omega, by omega, rfl, fun i h1 h2 => ?_⟩
    by_cases hik : i < k
    · exact abs_sub_le_of_left (hasc i (k - 1) h1 (by omega) (by omega)) hlt.le
    · have := hasc k i (by omega) (by omega) h2
      rw [abs_of_nonneg (by omega), abs_of_nonpos (by omega)]
      omega

end Answer

/-! ### The entries of the chosen file -/

section Chosen

variable {log : MapedFileQueue Bytes} {cq : ConsumeQueue} {f : MapedFile (List CQUnit)}
  {timestamp : Int64} {lastModified : MapedFile (List CQUnit) → Int64}

/-- The number, within a file, of its first retained entry. -/
def firstOf (cq : ConsumeQueue) (f : MapedFile (List CQUnit)) : ℕ :=
  (cq.minLogicOffset - f.fileFromOffset) / CQStoreUnitSize

/-- When an entry of a file was stored. -/
def storedAt (log : MapedFileQueue Bytes) (f : MapedFile (List CQUnit)) (i : ℕ) : Int64 :=
  ((unitsOf CQStoreUnitSize f)[i]?.bind (recordTime log)).getD 0

/-- What the search reads for an entry. -/
def valueAt (log : MapedFileQueue Bytes) (f : MapedFile (List CQUnit)) (i : ℕ) : Int64 :=
  if ∃ u ∈ (unitsOf CQStoreUnitSize f)[i]?, getMinOffset log < u.offset.toInt then
    storedAt log f i
  else -1

lemma filter_zipIdx {α : Type*} (l : List α) (a : ℕ) :
    (l.zipIdx.filter fun p => decide (a ≤ p.2)) = l.zipIdx.drop a := by
  conv_lhs => rw [← List.take_append_drop a l.zipIdx]
  have hfront : ((l.zipIdx.take a).filter fun p => decide (a ≤ p.2)) = [] := by
    refine List.filter_eq_nil_iff.mpr fun p hp => ?_
    obtain ⟨i, hi, rfl⟩ := List.mem_take_iff_getElem.mp hp
    rw [List.getElem_zipIdx, decide_eq_true_eq]
    simp only
    omega
  have hrest : ((l.zipIdx.drop a).filter fun p => decide (a ≤ p.2)) = l.zipIdx.drop a := by
    refine List.filter_eq_self.mpr fun p hp => ?_
    obtain ⟨i, hi, rfl⟩ := List.mem_drop_iff_getElem.mp hp
    rw [List.getElem_zipIdx, decide_eq_true_eq]
    simp only
    omega
  rw [List.filter_append, hfront, hrest, List.nil_append]

section File

variable (h : Timed log cq) (hf : f ∈ cq.mapedFileQueue.mapedFiles)
include h hf

lemma le_place_iff (i : ℕ) :
    cq.minLogicOffset ≤ f.fileFromOffset + CQStoreUnitSize * i ↔ firstOf cq f ≤ i := by
  obtain ⟨m, hm⟩ := h.dvd_min
  obtain ⟨k, hk⟩ := h.dvd.trans (h.chained.aligned (extent f) (List.mem_map_of_mem hf))
  change f.fileFromOffset = CQStoreUnitSize * k at hk
  rw [firstOf, hm, hk]
  simp only [CQStoreUnitSize]
  omega

/-- The retained entries of a file are those from the first one on. -/
lemma retained_eq : retained cq f = (placedOf f).drop (firstOf cq f) := by
  rw [retained, placedOf, List.filter_map, ← List.map_drop, ← filter_zipIdx]
  congr 1
  refine List.filter_congr fun p _ => ?_
  exact decide_eq_decide.mpr (le_place_iff h hf p.2)

lemma wrote_eq : f.wrotePostion = CQStoreUnitSize * (unitsOf CQStoreUnitSize f).length :=
  (length_unitsOf h.toWhole hf).symm

/-- A retained entry: its place, and its time. -/
lemma retained_entry {i : ℕ} (hi : firstOf cq f ≤ i) (hn : i < (unitsOf CQStoreUnitSize f).length) :
    ∃ u, (unitsOf CQStoreUnitSize f)[i]? = some u ∧
      recordTime log u = some (storedAt log f i) ∧ 0 ≤ storedAt log f i ∧
      (u, f.fileFromOffset + CQStoreUnitSize * i) ∈ retained cq f := by
  have hu := List.getElem?_eq_getElem hn
  have hplace := (le_place_iff h hf i).mpr hi
  have hmem : ((unitsOf CQStoreUnitSize f)[i], f.fileFromOffset + CQStoreUnitSize * i) ∈
      placedOf f := mem_placedOf.mpr ⟨i, hu, rfl⟩
  obtain ⟨t, ht, hnonneg⟩ := h.readable _ (List.mem_flatMap.mpr ⟨f, hf, hmem⟩) hplace
  have hstored : storedAt log f i = t := by
    rw [storedAt, hu, Option.bind_some, ht, Option.getD_some]
  rw [hstored]
  exact ⟨_, hu, ht, hnonneg, List.mem_filter.mpr ⟨hmem, by simpa using hplace⟩⟩

/-- And every retained entry is one of them. -/
lemma mem_retained {p : CQUnit × ℕ} (hp : p ∈ retained cq f) :
    ∃ i, firstOf cq f ≤ i ∧ i < (unitsOf CQStoreUnitSize f).length ∧
      p.2 = f.fileFromOffset + CQStoreUnitSize * i ∧
      recordTime log p.1 = some (storedAt log f i) := by
  obtain ⟨hplaced, hle⟩ := List.mem_filter.mp hp
  obtain ⟨i, hu, hplace⟩ := mem_placedOf.mp hplaced
  have hn := (List.getElem?_eq_some_iff.mp hu).1
  have hi : firstOf cq f ≤ i := (le_place_iff h hf i).mp (hplace ▸ by simpa using hle)
  obtain ⟨u, hu', htime, -⟩ := retained_entry h hf hi hn
  obtain rfl := Option.some.inj (hu.symm.trans hu')
  exact ⟨i, hi, hn, hplace, htime⟩

lemma stored_mono {i j : ℕ} (hi : firstOf cq f ≤ i) (hij : i ≤ j)
    (hj : j < (unitsOf CQStoreUnitSize f).length) :
    (storedAt log f i).toInt ≤ (storedAt log f j).toInt := by
  obtain ⟨u, -, ht, -, hmem⟩ := retained_entry h hf hi (by omega)
  obtain ⟨u', -, ht', -, hmem'⟩ := retained_entry h hf (hi.trans hij) hj
  have hsub : ∀ p ∈ retained cq f, p ∈ placed cq := fun p hp =>
    List.mem_flatMap.mpr ⟨f, hf, (List.mem_filter.mp hp).1⟩
  have hplace := (le_place_iff h hf i).mpr hi
  exact Int64.le_iff_toInt_le.mp (h.ascending _ (hsub _ hmem) _ (hsub _ hmem') hplace
    (Nat.add_le_add_left (Nat.mul_le_mul_left _ hij) _) _ ht _ ht')

/-- The search can read every retained entry but that of the record the log begins with. -/
lemma valueAt_eq {i : ℕ} (hi : firstOf cq f ≤ i) (hn : i < (unitsOf CQStoreUnitSize f).length) :
    (∃ u, (unitsOf CQStoreUnitSize f)[i]? = some u ∧
        pickupStoretimestamp log u.offset u.size = .ok (valueAt log f i)) ∧
      (0 ≤ valueAt log f i → (valueAt log f i).toInt = (storedAt log f i).toInt) ∧
      (readTime (valueAt log f) i = none ↔ ∃ u ∈ (unitsOf CQStoreUnitSize f)[i]?,
        u.offset.toInt = getMinOffset log) := by
  obtain ⟨u, hu, ht, hnonneg, -⟩ := retained_entry h hf hi hn
  have hle := le_of_recordTime ht
  have hvalue : valueAt log f i =
      if getMinOffset log < u.offset.toInt then storedAt log f i else -1 := by
    simp [valueAt, hu]
  have hpick := pickup_of_recordTime ht
  rw [← hvalue] at hpick
  refine ⟨⟨u, hu, hpick⟩, fun hpos => ?_, ?_⟩
  · rw [hvalue] at hpos ⊢
    split_ifs at hpos ⊢
    · rfl
    · exact absurd hpos (by decide)
  · rw [hu]
    simp only [Option.mem_some_iff, exists_eq_left']
    rw [readTime, hvalue]
    split_ifs with hlt hneg hneg
    · exact absurd hnonneg (Int64.not_le.mpr hneg)
    · simp only [false_iff]
      omega
    · simp only [true_iff]
      omega
    · exact absurd (show (-1 : Int64) < 0 by decide) hneg

lemma readTime_isSome {i : ℕ} (hi : firstOf cq f < i)
    (hn : i < (unitsOf CQStoreUnitSize f).length) :
    readTime (valueAt log f) i = some (storedAt log f i).toInt := by
  obtain ⟨-, hstored, hnone⟩ := valueAt_eq h hf hi.le hn
  by_cases hneg : valueAt log f i < 0
  · -- the record of a later entry does not lie at the begin of the log
    obtain ⟨u, hu, heq⟩ := hnone.mp (by rw [readTime, if_pos hneg])
    obtain ⟨u₀, hu₀, ht₀, -, hmem₀⟩ := retained_entry h hf le_rfl (hi.trans hn)
    have hle := le_of_recordTime ht₀
    have hlt : u₀.offset.toInt < u.offset.toInt := @InOrder.phy_lt cq h.toInOrder
      (u₀, f.fileFromOffset + CQStoreUnitSize * firstOf cq f)
      (u, f.fileFromOffset + CQStoreUnitSize * i)
      (List.mem_flatMap.mpr ⟨f, hf, (List.mem_filter.mp hmem₀).1⟩)
      (List.mem_flatMap.mpr ⟨f, hf, mem_placedOf.mpr ⟨i, hu, rfl⟩⟩)
      (Nat.add_lt_add_left (Nat.mul_lt_mul_of_pos_left hi h.pos) _)
    omega
  · rw [readTime, if_neg hneg, hstored (Int64.not_lt.mp hneg)]

end File

end Chosen

/-! ### The answer -/

section Result

variable {log : MapedFileQueue Bytes} {cq : ConsumeQueue} {f : MapedFile (List CQUnit)}
  {timestamp : Int64} {lastModified : MapedFile (List CQUnit) → Int64}

lemma mem_of_getMapedFileByTime
    (h : getMapedFileByTime lastModified timestamp cq.mapedFileQueue = some f) :
    f ∈ cq.mapedFileQueue.mapedFiles := by
  unfold getMapedFileByTime at h
  split at h
  · next g hg =>
    obtain rfl := Option.some.inj h
    exact List.mem_of_find?_eq_some hg
  · exact List.mem_of_getLast? h

section File

variable (h : Timed log cq) (hfits : cq.mapedFileQueue.mapedFileSize ≤ 2 ^ 30)
  (hchosen : getMapedFileByTime lastModified timestamp cq.mapedFileQueue = some f)
include h hchosen

lemma lt_of_retained (hne : retained cq f ≠ []) :
    firstOf cq f < (unitsOf CQStoreUnitSize f).length := by
  obtain ⟨p, hp⟩ := List.exists_mem_of_ne_nil _ hne
  obtain ⟨i, hi, hn, -⟩ := mem_retained h (mem_of_getMapedFileByTime hchosen) hp
  omega

/-- An entry at least as close as all others has the answer's number. -/
lemma nearest_of_index {j : ℕ} (hj : firstOf cq f ≤ j)
    (hn : j < (unitsOf CQStoreUnitSize f).length)
    (hall : ∀ i, firstOf cq f ≤ i → i < (unitsOf CQStoreUnitSize f).length →
      |timestamp.toInt - (storedAt log f j).toInt| ≤
        |timestamp.toInt - (storedAt log f i).toInt|) :
    Nearest log timestamp cq f
      (((f.fileFromOffset : ℤ) + (CQStoreUnitSize * j : ℤ)).tdiv CQStoreUnitSize) := by
  have hf := mem_of_getMapedFileByTime hchosen
  obtain ⟨u, -, ht, -, hmem⟩ := retained_entry h hf hj hn
  refine ⟨_, hmem, ?_, fun t ht' p' hp' t' ht'' => ?_⟩
  · obtain ⟨k, hk⟩ := h.dvd.trans (h.chained.aligned (extent f) (List.mem_map_of_mem hf))
    change f.fileFromOffset = CQStoreUnitSize * k at hk
    simp only [hk, CQStoreUnitSize]
    rw [Int.tdiv_eq_ediv_of_nonneg (by omega)]
    omega
  · obtain ⟨i, hi, hin, -, hti⟩ := mem_retained h hf hp'
    obtain rfl := Option.some.inj (ht.symm.trans ht')
    obtain rfl := Option.some.inj (hti.symm.trans ht'')
    exact hall i hi hin

include hfits

/-- The function is a bisection over the retained entries of the chosen file. -/
lemma getOffset_follows (hne : retained cq f ≠ []) (fuel : ℕ) :
    getOffsetInQueueByTime log lastModified timestamp fuel cq =
        some (.ok (Search.answer f.fileFromOffset timestamp (searchOf (valueAt log f)
          (firstOf cq f) (unitsOf CQStoreUnitSize f).length
          (bisect (readTime (valueAt log f)) timestamp.toInt (firstOf cq f)
            (unitsOf CQStoreUnitSize f).length)))) ∨
      fuel ≤ (unitsOf CQStoreUnitSize f).length - firstOf cq f ∧
        getOffsetInQueueByTime log lastModified timestamp fuel cq = none := by
  have hf := mem_of_getMapedFileByTime hchosen
  have hlt := lt_of_retained h hchosen hne
  have hwrote := wrote_eq h hf
  have hsize := wrote_le h.chained hf
  obtain ⟨m, hm⟩ := h.dvd_min
  obtain ⟨k, hk⟩ := h.dvd.trans (h.chained.aligned (extent f) (List.mem_map_of_mem hf))
  change f.fileFromOffset = CQStoreUnitSize * k at hk
  have hsel : selectUnits 0 f = some (unitsOf CQStoreUnitSize f) := by
    rw [selectUnits, if_pos ⟨by rw [hwrote]; exact Nat.mul_pos h.pos (by omega), h.available f hf⟩]
    rfl
  have hbounds : startBounds f cq.minLogicOffset =
      boundsAt (valueAt log f) (firstOf cq f) (unitsOf CQStoreUnitSize f).length (firstOf cq f)
        (unitsOf CQStoreUnitSize f).length := by
    have hlow : (if f.fileFromOffset < cq.minLogicOffset then
        Int.bmod ((cq.minLogicOffset : ℤ) - f.fileFromOffset) (2 ^ 32) else 0) =
        CQStoreUnitSize * (firstOf cq f : ℤ) := by
      rw [firstOf] at hlt ⊢
      simp only [hm, hk, CQStoreUnitSize] at *
      split_ifs with hmin
      · rw [Int.bmod_eq_of_le (by omega) (by omega)]
        omega
      · omega
    rw [startBounds, hlow, hwrote]
    simp [boundsAt]
  have hfollows := @searchLoop_follows (pickupStoretimestamp log) timestamp
    (unitsOf CQStoreUnitSize f) (valueAt log f) (firstOf cq f) (unitsOf CQStoreUnitSize f).length
    (by omega) (fun i hi hn => (valueAt_eq h hf hi hn).1) _ _ le_rfl hlt.le le_rfl fuel
  rw [getOffsetInQueueByTime, hchosen]
  simp only [hsel, hbounds]
  rcases hfollows with hsome | ⟨hfuel, hnone⟩
  · exact .inl (by rw [hsome]; rfl)
  · exact .inr ⟨hfuel, by rw [hnone]; rfl⟩

omit hfits in
lemma getElem?_retained (j : ℕ) : (retained cq f)[j]? =
    (unitsOf CQStoreUnitSize f)[firstOf cq f + j]?.map fun u =>
      (u, f.fileFromOffset + CQStoreUnitSize * (firstOf cq f + j)) := by
  rw [retained_eq h (mem_of_getMapedFileByTime hchosen), List.getElem?_drop, placedOf,
    List.getElem?_map, List.getElem?_zipIdx, Option.map_map]
  cases (unitsOf CQStoreUnitSize f)[firstOf cq f + j]? with
  | none => rfl
  | some u => simp

omit hfits in
lemma length_retained :
    (retained cq f).length = (unitsOf CQStoreUnitSize f).length - firstOf cq f := by
  rw [retained_eq h (mem_of_getMapedFileByTime hchosen), List.length_drop, ← map_fst_placedOf,
    List.length_map]

omit hfits in
/-- **Where the search comes to a record it cannot read.** -/
lemma missing_iff (hne : retained cq f ≠ []) :
    (∃ i, bisect (readTime (valueAt log f)) timestamp.toInt (firstOf cq f)
        (unitsOf CQStoreUnitSize f).length = .missing i) ↔
      StartsLog log cq f ∧ ¬ Stays log timestamp cq f := by
  have hf := mem_of_getMapedFileByTime hchosen
  have hlt := lt_of_retained h hchosen hne
  have hasc : Ascending (readTime (valueAt log f)) (firstOf cq f)
      (unitsOf CQStoreUnitSize f).length := by
    intro i j hi hij hj x hx y hy
    obtain ⟨-, -, -, rfl⟩ := of_readTime (fun i hi hn => (valueAt_eq h hf hi hn).2.1) hi
      (lt_of_le_of_lt hij hj) hx
    obtain ⟨-, -, -, rfl⟩ := of_readTime (fun i hi hn => (valueAt_eq h hf hi hn).2.1)
      (hi.trans hij) hj hy
    exact stored_mono h hf hi hij hj
  have hstarts : StartsLog log cq f ↔ readTime (valueAt log f) (firstOf cq f) = none := by
    rw [(valueAt_eq h hf le_rfl hlt).2.2, StartsLog, List.head?_eq_getElem?,
      getElem?_retained h hchosen]
    simp
  have hprobe := lowProbe_lt (by omega : 0 < (unitsOf CQStoreUnitSize f).length - firstOf cq f)
  have hstays : ¬ Stays log timestamp cq f ↔ (0 < lowProbe ((unitsOf CQStoreUnitSize f).length -
      firstOf cq f) → ∀ x ∈ readTime (valueAt log f) (firstOf cq f +
        lowProbe ((unitsOf CQStoreUnitSize f).length - firstOf cq f)), timestamp.toInt < x) := by
    rw [Stays, length_retained h hchosen, not_and]
    refine imp_congr_right fun hpos => ?_
    obtain ⟨u, hu, ht, -⟩ := retained_entry h hf (Nat.le_add_right (firstOf cq f)
      (lowProbe ((unitsOf CQStoreUnitSize f).length - firstOf cq f))) (by omega)
    rw [getElem?_retained h hchosen, hu, readTime_isSome h hf (by omega) (by omega)]
    simp [ht, Int64.lt_iff_toInt_lt]
  rw [hstarts, hstays]
  constructor
  · rintro ⟨i, hmissing⟩
    have hends := @bisect_ends _ _ (readTime (valueAt log f)) timestamp.toInt _ _ hlt.le
    rw [hmissing] at hends
    obtain ⟨hi, hn, hnone⟩ := hends
    obtain rfl : i = firstOf cq f := by
      by_contra hne'
      rw [readTime_isSome h hf (by omega) hn] at hnone
      exact absurd hnone (by simp)
    refine ⟨hnone, fun _ => ?_⟩
    exact (bisect_missing_iff hasc hlt hnone fun i hi hn => by
      rw [readTime_isSome h hf hi hn]
      rfl).mp hmissing
  · rintro ⟨hnone, hall⟩
    refine ⟨_, (bisect_missing_iff hasc hlt hnone fun i hi hn => by
      rw [readTime_isSome h hf hi hn]
      rfl).mpr ?_⟩
    rcases Nat.eq_zero_or_pos (lowProbe ((unitsOf CQStoreUnitSize f).length - firstOf cq f)) with
      hzero | hpos
    · rw [hzero, Nat.add_zero, hnone]
      simp
    · exact hall hpos

omit hfits in
/-- Where it reads all it comes to, the answer is that of a nearest entry. -/
lemma nearest_of_bisect (hne : retained cq f ≠ [])
    (hread : ¬ ∃ i, bisect (readTime (valueAt log f)) timestamp.toInt (firstOf cq f)
      (unitsOf CQStoreUnitSize f).length = .missing i) :
    Nearest log timestamp cq f (Search.answer f.fileFromOffset timestamp
      (searchOf (valueAt log f) (firstOf cq f) (unitsOf CQStoreUnitSize f).length
        (bisect (readTime (valueAt log f)) timestamp.toInt (firstOf cq f)
          (unitsOf CQStoreUnitSize f).length))) := by
  have hf := mem_of_getMapedFileByTime hchosen
  have hlt := lt_of_retained h hchosen hne
  have htime : ∀ i, firstOf cq f ≤ i → i < (unitsOf CQStoreUnitSize f).length →
      0 ≤ valueAt log f i → (valueAt log f i).toInt = (storedAt log f i).toInt :=
    fun i hi hn => (valueAt_eq h hf hi hn).2.1
  have hends := @bisect_ends _ _ (readTime (valueAt log f)) timestamp.toInt _ _ hlt.le
  cases hbisect : bisect (readTime (valueAt log f)) timestamp.toInt (firstOf cq f)
      (unitsOf CQStoreUnitSize f).length with
  | missing i => exact absurd ⟨i, hbisect⟩ hread
  | found i =>
    rw [hbisect] at hends
    obtain ⟨hi, hn, hfound⟩ := hends
    obtain ⟨-, -, -, heq⟩ := of_readTime htime hi hn hfound
    refine nearest_of_index h hchosen hi hn fun i' _ _ => ?_
    rw [← heq, sub_self, abs_zero]
    exact abs_nonneg _
  | between k =>
    rw [hbisect] at hends
    obtain ⟨j, hj, hn, hclosest, hall⟩ :=
      closest_spec (fun i j hi hij hj => stored_mono h hf hi hij hj) htime hlt hends
    rw [searchOf, Search.answer, hclosest]
    exact nearest_of_index h hchosen hj hn hall

end File

/-- **Offsets by time.** The function comes to its end with a nearest entry of the chosen file
exactly when the file has a retained entry, and the search does not come to the entry of the record
that the log begins with, or 0 is the number of a nearest entry. -/
theorem answers_iff (h : Timed log cq) (hfits : cq.mapedFileQueue.mapedFileSize ≤ 2 ^ 30) :
    Answers log lastModified timestamp cq ↔
      ∃ f, getMapedFileByTime lastModified timestamp cq.mapedFileQueue = some f ∧
        Findable log timestamp cq f := by
  constructor
  · rintro ⟨f, fuel, k, hchosen, hrun, hnear⟩
    have hne : retained cq f ≠ [] := by
      obtain ⟨p, hp, -⟩ := hnear
      exact List.ne_nil_of_mem hp
    refine ⟨f, hchosen, hne, fun hstarts => ?_⟩
    by_cases hstays : Stays log timestamp cq f
    · exact .inl hstays
    · obtain ⟨i, hmissing⟩ := (missing_iff h hchosen hne).mpr ⟨hstarts, hstays⟩
      rcases getOffset_follows h hfits hchosen hne fuel with hsome | ⟨-, hnone⟩
      · rw [hmissing, hrun] at hsome
        cases hsome
        exact .inr hnear
      · cases hrun.symm.trans hnone
  · rintro ⟨f, hchosen, hne, hclear⟩
    rcases getOffset_follows h hfits hchosen hne
      ((unitsOf CQStoreUnitSize f).length - firstOf cq f + 1) with hsome | ⟨hfuel, -⟩
    swap
    · omega
    refine ⟨f, _, _, hchosen, hsome, ?_⟩
    by_cases hmissing : ∃ i, bisect (readTime (valueAt log f)) timestamp.toInt (firstOf cq f)
        (unitsOf CQStoreUnitSize f).length = .missing i
    · obtain ⟨hstarts, hstays⟩ := (missing_iff h hchosen hne).mp hmissing
      obtain ⟨i, hmissing⟩ := hmissing
      rw [hmissing]
      exact (hclear hstarts).resolve_left hstays
    · exact nearest_of_bisect h hchosen hne hmissing

/-- The answer is a number of the queue. -/
lemma Nearest.bounds (h : WholeQueue cq) (hf : f ∈ cq.mapedFileQueue.mapedFiles) {k : ℤ}
    (hnear : Nearest log timestamp cq f k) :
    (cq.getMinOffsetInQuque : ℤ) ≤ k ∧ k < cq.getMaxOffsetInQuque := by
  obtain ⟨p, hp, hplace, -⟩ := hnear
  obtain ⟨hmem, hle⟩ := List.mem_filter.mp hp
  rw [decide_eq_true_eq] at hle
  have hlt := (le_of_mem_placedOf h hf hmem).2
  have hmax := wrote_le_max h.chained hf
  obtain ⟨n, hn⟩ := dvd_getMaxOffset h
  rw [hn] at hmax
  rw [ConsumeQueue.getMinOffsetInQuque, ConsumeQueue.getMaxOffsetInQuque, hn]
  simp only [CQStoreUnitSize] at *
  omega

/-- A record of 64 bytes, with its store time at the end. -/
def record (storeTimestamp : UInt8) : Bytes := List.replicate 63 0 ++ [storeTimestamp]

lemma pos_128 : 0 < 128 := by decide

/-- Two records, stored at 100 and 200. -/
def twoRecords : MapedFileQueue Bytes :=
  ⟨128, pos_128, [{ fileFromOffset := 0, mappedByteBuffer := record 100 ++ record 200
                    wrotePostion := 128 }], 0, 0⟩

/-- Their entries. -/
def twoTimes : ConsumeQueue :=
  ⟨⟨40, pos_40,
    [{ fileFromOffset := 0, mappedByteBuffer := [⟨0, 64, 0⟩, ⟨64, 64, 0⟩], wrotePostion := 40 }],
    0, 0⟩, 64, 0⟩

lemma placed_twoTimes : placed twoTimes = [(⟨0, 64, 0⟩, 0), (⟨64, 64, 0⟩, 20)] := rfl

lemma recordTime_twoTimes : recordTime twoRecords ⟨0, 64, 0⟩ = some 100 ∧
    recordTime twoRecords ⟨64, 64, 0⟩ = some 200 := by decide

lemma timed_twoTimes : Timed twoRecords twoTimes where
  chained := ⟨.singleton _, by simp [extents, twoTimes, extent],
    by simp [extents, twoTimes, extent]⟩
  dvd := by decide
  mapped := by simp [twoTimes, CQStoreUnitSize]
  wrote := by simp [twoTimes, CQStoreUnitSize]
  increasing := by decide
  available := by simp [twoTimes]
  dvd_min := by decide
  readable := by
    rw [placed_twoTimes]
    simp [recordTime_twoTimes.1, recordTime_twoTimes.2]
  ascending := by
    rw [placed_twoTimes]
    simp [recordTime_twoTimes.1, recordTime_twoTimes.2]

theorem answers_first : Answers twoRecords (fun _ => 0) 100 twoTimes ↔
    ∃ f, getMapedFileByTime (fun _ => 0) 100 twoTimes.mapedFileQueue = some f ∧
      Findable twoRecords 100 twoTimes f :=
  answers_iff timed_twoTimes (by decide)

/-- The second message was stored at the very time; the answer is the first. -/
theorem answers_second : ¬ ∀ log lastModified timestamp cq, Timed log cq →
    cq.mapedFileQueue.mapedFileSize ≤ 2 ^ 30 → Answers log lastModified timestamp cq := by
  intro h
  obtain ⟨f, fuel, k, hchosen, hrun, hnear⟩ :=
    h twoRecords (fun _ => 0) 200 twoTimes timed_twoTimes (by decide)
  have hzero : k = 0 := by
    cases fuel with
    | zero =>
      have hnone : getOffsetInQueueByTime twoRecords (fun _ => 0) 200 0 twoTimes = none := rfl
      cases hrun.symm.trans hnone
    | succ fuel =>
      have hzero : getOffsetInQueueByTime twoRecords (fun _ => 0) 200 (fuel + 1) twoTimes =
          some (.ok 0) := rfl
      cases hrun.symm.trans hzero
      rfl
  subst hzero
  obtain ⟨p, hp, hplace, hall⟩ := hnear
  have hretained : retained twoTimes f = [(⟨0, 64, 0⟩, 0), (⟨64, 64, 0⟩, 20)] := by
    have hfile : f ∈ twoTimes.mapedFileQueue.mapedFiles := mem_of_getMapedFileByTime hchosen
    rw [List.mem_singleton.mp hfile]
    rfl
  rw [hretained] at hp hall
  have hclose := hall 100 (by
    rcases List.mem_pair.mp hp with rfl | rfl
    · exact recordTime_twoTimes.1
    · exact absurd hplace (by decide)) (⟨64, 64, 0⟩, 20) (by simp) 200 recordTime_twoTimes.2
  exact absurd hclose (by decide)

end Result

end CloudMQ.OffsetByTime
