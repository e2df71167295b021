import CloudMQ.ClientDecoder
import CloudMQ.QueueEntries

/-!
Listing the identifiers of the messages of a queue.

The entries are read from a buffer at a time, each of them to the end of a file. An entry takes
twenty bytes, but the loop goes on eight bytes behind the last one that it read; so what it takes
for the place of a record is the place only of the first entry of a buffer.
-/

namespace CloudMQ.MessageIds

open CloudMQ.Buffer CloudMQ.Utf8 CloudMQ.Tables CloudMQ.Message CloudMQ.Record CloudMQ.Segment
open CloudMQ.Chain CloudMQ.Units CloudMQ.ConsumeQueues CloudMQ.QueueEntries CloudMQ.ClientDecoder

/-! ### The loops -/

/-- An entry as it lies in its file. -/
def unitBytes (u : CQUnit) : Bytes := putLong u.offset ++ putInt u.size ++ putLong u.tagsCode

/-- `MessageDecoder.createMessageId`, of the bytes of a host. -/
def createMessageId (addr : Bytes) (offset : Int64) : Text := bytes2string (addr ++ putLong offset)

section

variable (storeHost : InetSocketAddress) (maxOffset : ℤ)

/-- The loop over a buffer, with the number of rounds that are left: the identifiers, the next
offset and whether the method returns. `none` is an exception. -/
def putAll : ℕ → Bytes → ℕ → Table Text ℕ → Option (Table Text ℕ × ℕ × Bool)
  | 0, _, nextOffset, messageIds => some (messageIds, nextOffset, false)
  | n + 1, buffer, nextOffset, messageIds =>
    (getLong.run buffer).bind fun r =>
      (SocketAddress2ByteBuffer storeHost).bind fun addr =>
        let messageIds := messageIds.insert (createMessageId addr r.1) nextOffset
        if maxOffset < nextOffset + 1 then some (messageIds, nextOffset + 1, true)
        else putAll n r.2 (nextOffset + 1) messageIds

/-- The loop over the buffers; `none` is an exception, or that the rounds do not suffice. -/
def enumerate (cq : ConsumeQueue) : ℕ → ℕ → Table Text ℕ → Option (Table Text ℕ)
  | 0, _, _ => none
  | fuel + 1, nextOffset, messageIds =>
    if nextOffset < maxOffset then
      match getIndexBuffer cq nextOffset with
      | none => some messageIds
      | some us =>
        (putAll storeHost maxOffset us.length (us.flatMap unitBytes) nextOffset messageIds).bind
          fun r => if r.2.2 then some r.1 else enumerate cq fuel r.2.1 r.1
    else some messageIds

end

section

variable (storeHost : InetSocketAddress) (cq : ConsumeQueue) (minOffset maxOffset : ℤ)

/-- The first number asked for that is in the queue. -/
def low : ℕ := (max minOffset cq.getMinOffsetInQuque).toNat

/-- The end of the numbers asked for. -/
def high : ℤ := min maxOffset cq.getMaxOffsetInQuque

/-- `DefaultMessageStore.getMessageIds`, of the queue that was found. -/
def getMessageIds (fuel : ℕ) (shutdown : Bool) : Option (Table Text ℕ) :=
  if shutdown then some ∅
  else if high cq maxOffset = 0 then some ∅
  else enumerate storeHost (high cq maxOffset) cq fuel (low cq minOffset) ∅

/-- The method ends, with these identifiers. -/
def Returns (shutdown : Bool) (messageIds : Table Text ℕ) : Prop :=
  ∃ fuel₀, ∀ fuel ≥ fuel₀,
    getMessageIds storeHost cq minOffset maxOffset fuel shutdown = some messageIds

/-- The identifier of an entry. -/
def msgIdOf (k : ℕ) : Option Text :=
  (entryAt cq k).bind fun u => (SocketAddress2ByteBuffer storeHost).map fun addr =>
    createMessageId addr u.offset

/-- One mapping for each number of the range, and no other. -/
structure Listed (messageIds : Table Text ℕ) : Prop where
  all : ∀ k, low cq minOffset ≤ k → k < high cq maxOffset →
    ∃ id, msgIdOf storeHost cq k = some id ∧ messageIds.lookup id = some k
  only : ∀ id k, messageIds.lookup id = some k →
    low cq minOffset ≤ k ∧ k < high cq maxOffset ∧ msgIdOf storeHost cq k = some id

/-! ### What the loops read -/

def totalUnitsInFile : ℕ := cq.mapedFileQueue.mapedFileSize / CQStoreUnitSize

/-- The first number of the buffer that an entry is read from. -/
def bufferStart (k : ℕ) : ℕ :=
  max (low cq minOffset) (k / totalUnitsInFile cq * totalUnitsInFile cq)

/-- The eight bytes that are read for an entry. -/
def readAt (k : ℕ) : Option Int64 :=
  (getLong.run ((((getIndexBuffer cq (bufferStart cq minOffset k)).getD []).flatMap unitBytes).drop
    (8 * (k - bufferStart cq minOffset k)))).map Prod.fst

/-- The condition under which every number of the range gets its identifier, where there is one. -/
structure Enumerable (shutdown : Bool) : Prop where
  running : shutdown = false
  host : (SocketAddress2ByteBuffer storeHost).isSome
  read : ∀ k, low cq minOffset ≤ k → k < high cq maxOffset →
    ∃ u, entryAt cq k = some u ∧ readAt cq minOffset k = some u.offset
  distinct : ∀ k k' u u', low cq minOffset ≤ k → k < high cq maxOffset →
    low cq minOffset ≤ k' → k' < high cq maxOffset → entryAt cq k = some u →
    entryAt cq k' = some u' → u.offset = u'.offset → k = k'
  bounded : high cq maxOffset = cq.getMaxOffsetInQuque ∨
    (totalUnitsInFile cq : ℤ) ∣ high cq maxOffset

end

/-! ### Identifiers -/

lemma bytes2string_injective : Function.Injective bytes2string := by
  intro a b h
  rw [← string2bytes_bytes2string a, h, string2bytes_bytes2string]

lemma putLong_injective : Function.Injective putLong := by
  intro a b h
  have hread := getLong_putLong a []
  rw [h, getLong_putLong b []] at hread
  exact (congrArg Prod.fst (Option.some.inj hread)).symm

lemma createMessageId_inj {addr : Bytes} {a b : Int64} :
    createMessageId addr a = createMessageId addr b ↔ a = b := by
  constructor
  · intro h
    exact putLong_injective (List.append_cancel_left (bytes2string_injective h))
  · exact fun h => h ▸ rfl

/-- The identifiers of `m` values from the number `k` on. -/
def insertIds (addr : Bytes) (v : ℕ → Int64) (k m : ℕ) (ids : Table Text ℕ) : Table Text ℕ :=
  (List.range' k m).foldl (fun ids j => ids.insert (createMessageId addr (v j)) j) ids

section

variable {addr : Bytes} {v : ℕ → Int64} {k m : ℕ} {ids : Table Text ℕ}

lemma insertIds_succ : insertIds addr v k (m + 1) ids =
    (insertIds addr v k m ids).insert (createMessageId addr (v (k + m))) (k + m) := by
  rw [insertIds, List.range'_1_concat, List.foldl_append]
  rfl

lemma insertIds_cons : insertIds addr v k (m + 1) ids =
    insertIds addr v (k + 1) m (ids.insert (createMessageId addr (v k)) k) := rfl

lemma insertIds_insertIds {n : ℕ} :
    insertIds addr v (k + m) n (insertIds addr v k m ids) = insertIds addr v k (m + n) ids := by
  rw [insertIds, insertIds, insertIds, ← List.range'_append_1, List.foldl_append]

/-- A number that is found is that of a value, and of the last one with this identifier. -/
lemma lookup_insertIds {id : Text} {j : ℕ}
    (h : (insertIds addr v k m ∅).lookup id = some j) :
    k ≤ j ∧ j < k + m ∧ id = createMessageId addr (v j) := by
  induction m with
  | zero => cases h
  | succ m ih =>
    rw [insertIds_succ, lookup_insert_ite] at h
    split_ifs at h with heq
    · cases h
      exact ⟨by omega, by omega, heq⟩
    · obtain ⟨hge, hlt, hid⟩ := ih h
      exact ⟨hge, by omega, hid⟩

lemma lookup_insertIds_of_inj
    (hinj : ∀ i j, k ≤ i → i < k + m → k ≤ j → j < k + m → v i = v j → i = j) {j : ℕ}
    (hge : k ≤ j) (hlt : j < k + m) :
    (insertIds addr v k m ∅).lookup (createMessageId addr (v j)) = some j := by
  induction m with
  | zero => omega
  | succ m ih =>
    rw [insertIds_succ, lookup_insert_ite]
    split_ifs with heq
    · rw [hinj j (k + m) hge hlt (by omega) (by omega) (createMessageId_inj.mp heq)]
    · refine ih (fun i j hi hi' hj hj' => hinj i j hi (by omega) hj (by omega)) ?_
      by_contra hnot
      obtain rfl : j = k + m := by omega
      exact heq rfl

end

/-! ### One buffer -/

section

variable {storeHost : InetSocketAddress} {maxOffset : ℤ} {addr : Bytes} {v : ℕ → Int64}

/-- The rounds end with the buffer, or one number behind the last one wanted. -/
lemma putAll_spec (haddr : SocketAddress2ByteBuffer storeHost = some addr) {n : ℕ} {buffer : Bytes}
    {next : ℕ} {ids : Table Text ℕ} (hle : next ≤ maxOffset)
    (hv : ∀ i < n, (getLong.run (buffer.drop (8 * i))).map Prod.fst = some (v (next + i))) :
    ∃ m ≤ n, ∃ flag, putAll storeHost maxOffset n buffer next ids =
        some (insertIds addr v next m ids, next + m, flag) ∧
      (flag = false → m = n ∧ (next + m : ℤ) ≤ maxOffset) ∧
      (flag = true → (next + m : ℤ) = maxOffset + 1) := by
  induction n generalizing buffer next ids with
  | zero => exact ⟨0, le_rfl, false, rfl, fun _ => ⟨rfl, by simpa using hle⟩, fun h => by cases h⟩
  | succ n ih =>
    obtain ⟨⟨offsetPy, rest⟩, hread, hoffset⟩ := Option.map_eq_some_iff.mp (hv 0 n.succ_pos)
    rw [Nat.mul_zero, List.drop_zero] at hread
    cases hoffset
    have hrest : buffer.drop 8 = rest := by
      have hbytes := getLong_eq_some hread
      rw [hbytes, List.drop_left' (length_putLong _)]
    rw [putAll, hread, haddr]
    simp only [Option.bind_some]
    by_cases hend : maxOffset < next + 1
    · rw [if_pos hend]
      exact ⟨1, by omega, true, rfl, (fun h => by cases h), fun _ => by push_cast; omega⟩
    · rw [if_neg hend]
      have hv' : ∀ i < n, (getLong.run (rest.drop (8 * i))).map Prod.fst =
          some (v (next + 1 + i)) := by
        intro i hi
        rw [← hrest, List.drop_drop, Nat.add_comm 8, ← Nat.mul_succ, hv (i + 1) (by omega),
          Nat.add_assoc, Nat.add_comm 1]
      obtain ⟨m, hm, flag, hput, hmore, hdone⟩ := ih (by push_cast; omega) hv'
      refine ⟨m + 1, by omega, flag, ?_, fun h => ?_, fun h => ?_⟩
      · rw [hput, insertIds_cons, Nat.add_assoc, Nat.add_comm 1]
        rfl
      · obtain ⟨heq, hle⟩ := hmore h
        push_cast at hle ⊢
        exact ⟨by omega, by omega⟩
      · have heq := hdone h
        push_cast at heq ⊢
        omega

/-- A host that is no IPv4 address. -/
lemma putAll_none (haddr : SocketAddress2ByteBuffer storeHost = none) {n : ℕ} (hn : 0 < n)
    (buffer : Bytes) (next : ℕ) (ids : Table Text ℕ) :
    putAll storeHost maxOffset n buffer next ids = none := by
  obtain ⟨n, rfl⟩ := Nat.exists_eq_succ_of_ne_zero hn.ne'
  rw [putAll, haddr]
  cases getLong.run buffer <;> rfl

end

/-! ### The buffers of a range -/

lemma getLong_isSome {bs : Bytes} (h : 8 ≤ bs.length) :
    ∃ x, (getLong.run bs).map Prod.fst = some x := by
  have hlen : (bs.take 8).length = 8 := List.length_take_of_le h
  have hread := @getLong_of_append (bs.take 8) (bs.drop 8) hlen
  rw [List.take_append_drop] at hread
  exact ⟨_, congrArg (Option.map Prod.fst) hread⟩

lemma length_units (us : List CQUnit) :
    (us.flatMap unitBytes).length = CQStoreUnitSize * us.length := by
  induction us with
  | nil => rfl
  | cons u us ih =>
    rw [List.flatMap_cons, List.length_append, ih, unitBytes, List.length_append,
      List.length_append, length_putLong, length_putInt, length_putLong, List.length_cons,
      Nat.mul_succ, Nat.add_comm]
    rfl

section

variable {cq : ConsumeQueue} {minOffset : ℤ} {next : ℕ} {us : List CQUnit}

/-- What is read for a number, where there is something to read. -/
def valueAt (cq : ConsumeQueue) (minOffset : ℤ) (k : ℕ) : Int64 := (readAt cq minOffset k).getD 0

/-- Where a buffer can begin: at the first number, or with a file. -/
def Head (cq : ConsumeQueue) (minOffset : ℤ) (next : ℕ) : Prop :=
  low cq minOffset ≤ next ∧ (next = low cq minOffset ∨ totalUnitsInFile cq ∣ next)

lemma mul_totalUnitsInFile (h : WholeQueue cq) :
    CQStoreUnitSize * totalUnitsInFile cq = cq.mapedFileQueue.mapedFileSize :=
  Nat.mul_div_cancel' h.dvd

lemma totalUnitsInFile_pos (h : WholeQueue cq) : 0 < totalUnitsInFile cq := by
  have hmul := mul_totalUnitsInFile h
  have hpos := cq.mapedFileQueue.size_pos
  by_contra hnot
  rw [Nat.eq_zero_of_not_pos hnot, Nat.mul_zero] at hmul
  omega

lemma Head.bufferStart (h : Head cq minOffset next) : bufferStart cq minOffset next = next := by
  rw [MessageIds.bufferStart]
  rcases h with ⟨hlow, rfl | hdvd⟩
  · exact max_eq_left (Nat.div_mul_le_self _ _)
  · rw [Nat.div_mul_cancel hdvd]
    exact max_eq_right hlow

/-- A buffer lies in one file, and reaches to its end or to that of the queue. -/
lemma buffer_cases (h : WholeQueue cq) (hb : getIndexBuffer cq next = some us) :
    0 < us.length ∧ next + us.length ≤ cq.getMaxOffsetInQuque ∧
      (∀ i < us.length, (next + i) / totalUnitsInFile cq = next / totalUnitsInFile cq) ∧
      (totalUnitsInFile cq ∣ next + us.length ∨ next + us.length = cq.getMaxOffsetInQuque) := by
  have hlen := length_getIndexBuffer_pos h hb
  obtain ⟨f, hf, -, hle, hlt, hend⟩ := getIndexBuffer_cases h hb
  have hmul := mul_totalUnitsInFile h
  have hwrote := wrote_le h.chained hf
  have hpos : 0 < CQStoreUnitSize := h.pos
  obtain ⟨c, hc⟩ := h.chained.aligned (extent f) (List.mem_map_of_mem hf)
  change f.fileFromOffset = _ at hc
  rw [← hmul, Nat.mul_assoc] at hc
  have hfirst : totalUnitsInFile cq * c ≤ next :=
    Nat.le_of_mul_le_mul_left (hc ▸ hle) hpos
  have hlast : next + us.length ≤ totalUnitsInFile cq * c + totalUnitsInFile cq := by
    refine Nat.le_of_mul_le_mul_left (c := CQStoreUnitSize) ?_ hpos
    rw [hend, hc, Nat.mul_add, hmul]
    omega
  have hfile : ∀ i < us.length, (next + i) / totalUnitsInFile cq = c := by
    intro i hi
    rw [Nat.div_eq_iff (totalUnitsInFile_pos h), Nat.mul_comm]
    omega
  have hmax : next + us.length ≤ cq.getMaxOffsetInQuque := by
    rw [ConsumeQueue.getMaxOffsetInQuque, Nat.le_div_iff_mul_le hpos, Nat.mul_comm, hend]
    exact wrote_le_max h.chained hf
  refine ⟨hlen, hmax, fun i hi => (hfile i hi).trans (hfile 0 hlen).symm, ?_⟩
  by_cases hfull : f.wrotePostion = cq.mapedFileQueue.mapedFileSize
  · refine .inl ⟨c + 1, Nat.eq_of_mul_eq_mul_left hpos ?_⟩
    rw [hend, hfull, hc, ← hmul, Nat.mul_succ, Nat.mul_add]
  · refine .inr ?_
    rw [ConsumeQueue.getMaxOffsetInQuque, max_of_not_full h.chained hf hfull, ← hend,
      Nat.mul_div_cancel_left _ hpos]

/-- What the loop reads from a buffer. -/
lemma Head.read (hh : Head cq minOffset next) (h : WholeQueue cq)
    (hb : getIndexBuffer cq next = some us) {i : ℕ} (hi : i < us.length) :
    (getLong.run ((us.flatMap unitBytes).drop (8 * i))).map Prod.fst =
        some (valueAt cq minOffset (next + i)) ∧
      readAt cq minOffset (next + i) = some (valueAt cq minOffset (next + i)) := by
  obtain ⟨-, -, hfile, -⟩ := buffer_cases h hb
  have hstart : MessageIds.bufferStart cq minOffset (next + i) = next := by
    rw [MessageIds.bufferStart, hfile i hi]
    exact hh.bufferStart
  have hread : readAt cq minOffset (next + i) =
      (getLong.run ((us.flatMap unitBytes).drop (8 * i))).map Prod.fst := by
    rw [readAt, hstart, hb, Nat.add_sub_cancel_left]
    rfl
  obtain ⟨x, hx⟩ := @getLong_isSome ((us.flatMap unitBytes).drop (8 * i)) (by
    rw [List.length_drop, length_units, CQStoreUnitSize]
    omega)
  have hvalue : valueAt cq minOffset (next + i) = x := by
    rw [valueAt, hread, hx]
    rfl
  rw [hread, hx, hvalue]
  exact ⟨rfl, rfl⟩

lemma Head.readAt_none (hh : Head cq minOffset next) (hb : getIndexBuffer cq next = none) :
    readAt cq minOffset next = none := by
  rw [readAt, hh.bufferStart, hb, Nat.sub_self]
  rfl

/-- Where the last wanted number ends the buffers. -/
def Bounded (cq : ConsumeQueue) (maxOffset : ℤ) : Prop :=
  maxOffset = cq.getMaxOffsetInQuque ∨ (totalUnitsInFile cq : ℤ) ∣ maxOffset

/-- How the loop ends: at a number that cannot be read, at the end of the range, or behind it. -/
def Ended (cq : ConsumeQueue) (minOffset maxOffset : ℤ) (e : ℕ) : Prop :=
  (e < maxOffset ∧ readAt cq minOffset e = none) ∨ (e = maxOffset ∧ Bounded cq maxOffset) ∨
    (e = maxOffset + 1 ∧ ¬Bounded cq maxOffset)

variable {storeHost : InetSocketAddress} {maxOffset : ℤ} {addr : Bytes}

lemma enumerate_end {ids : Table Text ℕ} (hge : maxOffset ≤ next) {fuel : ℕ} (hfuel : 0 < fuel) :
    enumerate storeHost maxOffset cq fuel next ids = some ids := by
  obtain ⟨fuel, rfl⟩ := Nat.exists_eq_succ_of_ne_zero hfuel.ne'
  rw [enumerate, if_neg (by omega)]

lemma not_bounded (h : WholeQueue cq) (hb : getIndexBuffer cq next = some us) {i : ℕ} (hi : 0 < i)
    (hlt : i < us.length) (hmax : (next + i : ℤ) = maxOffset) : ¬Bounded cq maxOffset := by
  obtain ⟨-, hend, hfile, -⟩ := buffer_cases h hb
  rintro (heq | hdvd)
  · omega
  · have hdvd' : totalUnitsInFile cq ∣ next + i := by
      rw [← Int.natCast_dvd_natCast]
      push_cast
      rwa [hmax]
    have hmul := Nat.div_mul_cancel hdvd'
    rw [hfile i hlt] at hmul
    have hle := Nat.div_mul_le_self next (totalUnitsInFile cq)
    omega

/-- **The loop.** -/
lemma enumerate_spec (h : WholeQueue cq) (haddr : SocketAddress2ByteBuffer storeHost = some addr)
    (hmax : maxOffset ≤ cq.getMaxOffsetInQuque) {d : ℕ} {ids : Table Text ℕ}
    (hd : maxOffset ≤ next + d) (hlt : next < maxOffset) (hh : Head cq minOffset next) :
    ∃ m, (∀ fuel > d, enumerate storeHost maxOffset cq fuel next ids =
        some (insertIds addr (valueAt cq minOffset) next m ids)) ∧
      Ended cq minOffset maxOffset (next + m) ∧ ∀ k, next ≤ k → k < next + m →
        readAt cq minOffset k = some (valueAt cq minOffset k) := by
  induction d generalizing next ids with
  | zero => omega
  | succ d ih =>
    cases hb : getIndexBuffer cq next with
    | none =>
      refine ⟨0, fun fuel hfuel => ?_, .inl ⟨hlt, hh.readAt_none hb⟩, fun k hge hk => by omega⟩
      obtain ⟨fuel, rfl⟩ := Nat.exists_eq_succ_of_ne_zero (by omega : fuel ≠ 0)
      rw [enumerate, if_pos hlt, hb]
      rfl
    | some us =>
      obtain ⟨hpos, hend, -, hnext⟩ := buffer_cases h hb
      obtain ⟨m, hm, flag, hput, hmore, hdone⟩ := @putAll_spec storeHost maxOffset addr
        (valueAt cq minOffset) haddr us.length (us.flatMap unitBytes) next ids hlt.le
        fun i hi => (hh.read h hb hi).1
      have hread : ∀ k, next ≤ k → k < next + m →
          readAt cq minOffset k = some (valueAt cq minOffset k) := by
        intro k hge hk
        have hvalue := (hh.read h hb (by omega : k - next < us.length)).2
        rwa [Nat.add_sub_cancel' hge] at hvalue
      have hround : ∀ fuel, enumerate storeHost maxOffset cq (fuel + 1) next ids =
          if flag then some (insertIds addr (valueAt cq minOffset) next m ids)
          else enumerate storeHost maxOffset cq fuel (next + m)
            (insertIds addr (valueAt cq minOffset) next m ids) := by
        intro fuel
        rw [enumerate, if_pos hlt, hb]
        dsimp only
        rw [hput]
        rfl
      cases flag with
      | true =>
        have heq := hdone rfl
        refine ⟨m, fun fuel hfuel => ?_, .inr (.inr ⟨by push_cast; exact heq, ?_⟩), hread⟩
        · obtain ⟨fuel, rfl⟩ := Nat.exists_eq_succ_of_ne_zero (by omega : fuel ≠ 0)
          exact hround fuel
        · exact not_bounded h hb (i := m - 1) (by omega) (by omega) (by omega)
      | false =>
        obtain ⟨rfl, hle⟩ := hmore rfl
        rcases hle.lt_or_eq with hlt' | heq
        · have hdvd : totalUnitsInFile cq ∣ next + us.length := hnext.resolve_right (by omega)
          obtain ⟨n, hrun, hended, hrest⟩ := @ih (next + us.length)
            (insertIds addr (valueAt cq minOffset) next us.length ids) (by push_cast; omega)
            (by push_cast; exact hlt') ⟨hh.1.trans (Nat.le_add_right _ _), .inr hdvd⟩
          refine ⟨us.length + n, fun fuel hfuel => ?_, ?_, fun k hge hk => ?_⟩
          · obtain ⟨fuel, rfl⟩ := Nat.exists_eq_succ_of_ne_zero (by omega : fuel ≠ 0)
            rw [hround, if_neg Bool.false_ne_true, hrun fuel (by omega), insertIds_insertIds]
          · rwa [← Nat.add_assoc]
          · rcases Nat.lt_or_ge k (next + us.length) with hin | hout
            · exact hread k hge hin
            · exact hrest k hout (by omega)
        · refine ⟨us.length, fun fuel hfuel => ?_, .inr (.inl ⟨by push_cast; exact heq, ?_⟩), hread⟩
          · obtain ⟨fuel, rfl⟩ := Nat.exists_eq_succ_of_ne_zero (by omega : fuel ≠ 0)
            rw [hround, if_neg Bool.false_ne_true, enumerate_end (by push_cast; omega) (by omega)]
          · rcases hnext with hdvd | heq'
            · refine .inr ?_
              rw [← heq]
              exact_mod_cast hdvd
            · exact .inl (by omega)

/-! ### The list -/

variable {shutdown : Bool}

/-- No number in the range. -/
lemma returns_empty (hge : high cq maxOffset ≤ low cq minOffset) :
    Returns storeHost cq minOffset maxOffset shutdown ∅ := by
  refine ⟨1, fun fuel hfuel => ?_⟩
  rw [getMessageIds]
  split_ifs
  · rfl
  · rfl
  · exact enumerate_end hge (by omega)

lemma returns_unique {ids ids' : Table Text ℕ}
    (h : Returns storeHost cq minOffset maxOffset shutdown ids)
    (h' : Returns storeHost cq minOffset maxOffset shutdown ids') : ids = ids' := by
  obtain ⟨fuel, hfuel⟩ := h
  obtain ⟨fuel', hfuel'⟩ := h'
  exact Option.some.inj ((hfuel _ (le_max_left fuel fuel')).symm.trans
    (hfuel' _ (le_max_right fuel fuel')))

/-- What is returned for a range that is not empty. -/
lemma returns_spec (h : WholeQueue cq) (haddr : SocketAddress2ByteBuffer storeHost = some addr)
    (hlt : low cq minOffset < high cq maxOffset) :
    ∃ m, Returns storeHost cq minOffset maxOffset false
        (insertIds addr (valueAt cq minOffset) (low cq minOffset) m ∅) ∧
      Ended cq minOffset (high cq maxOffset) (low cq minOffset + m) ∧
      ∀ k, low cq minOffset ≤ k → k < low cq minOffset + m →
        readAt cq minOffset k = some (valueAt cq minOffset k) := by
  obtain ⟨m, hrun, hended, hread⟩ := @enumerate_spec cq minOffset (low cq minOffset) storeHost
    (high cq maxOffset) addr h haddr (min_le_right _ _)
    (high cq maxOffset - low cq minOffset).toNat ∅ (by omega) hlt ⟨le_rfl, .inl rfl⟩
  refine ⟨m, ⟨(high cq maxOffset - low cq minOffset).toNat + 1, fun fuel hfuel => ?_⟩, hended,
    hread⟩
  rw [getMessageIds, if_neg Bool.false_ne_true, if_neg (by omega), hrun fuel hfuel]

lemma msgIdOf_eq_some {id : Text} {k : ℕ} : msgIdOf storeHost cq k = some id ↔
    ∃ u addr, entryAt cq k = some u ∧ SocketAddress2ByteBuffer storeHost = some addr ∧
      createMessageId addr u.offset = id := by
  rw [msgIdOf, Option.bind_eq_some_iff]
  simp only [Option.map_eq_some_iff]
  constructor
  · rintro ⟨u, hu, addr, haddr, hid⟩
    exact ⟨u, addr, hu, haddr, hid⟩
  · rintro ⟨u, addr, hu, haddr, hid⟩
    exact ⟨u, hu, addr, haddr, hid⟩

lemma enumerable_of_listed (h : WholeQueue cq) (hlt : low cq minOffset < high cq maxOffset)
    {ids : Table Text ℕ} (hreturns : Returns storeHost cq minOffset maxOffset shutdown ids)
    (hlisted : Listed storeHost cq minOffset maxOffset ids) :
    Enumerable storeHost cq minOffset maxOffset shutdown := by
  obtain ⟨id, hid, hfirst⟩ := hlisted.all _ le_rfl hlt
  obtain ⟨-, addr, -, haddr, -⟩ := msgIdOf_eq_some.mp hid
  have hrunning : shutdown = false := by
    by_contra hdown
    obtain ⟨fuel, hfuel⟩ := hreturns
    have hempty := hfuel fuel le_rfl
    rw [getMessageIds, if_pos (by simpa using hdown)] at hempty
    cases hempty
    cases hfirst
  subst hrunning
  obtain ⟨m, hspec, hended, hread⟩ :=
    @returns_spec cq minOffset storeHost maxOffset addr h haddr hlt
  obtain rfl := returns_unique hreturns hspec
  have hall : ∀ k, low cq minOffset ≤ k → k < high cq maxOffset → k < low cq minOffset + m ∧
      ∃ u, entryAt cq k = some u ∧ valueAt cq minOffset k = u.offset := by
    intro k hge hk
    obtain ⟨id, hid, hlook⟩ := hlisted.all k hge hk
    obtain ⟨u, addr', hu, haddr', rfl⟩ := msgIdOf_eq_some.mp hid
    cases haddr.symm.trans haddr'
    obtain ⟨-, hkm, heq⟩ := lookup_insertIds hlook
    exact ⟨hkm, u, hu, (createMessageId_inj.mp heq).symm⟩
  refine ⟨rfl, haddr ▸ rfl, fun k hge hk => ?_, fun k k' u u' hge hk hge' hk' hu hu' heq => ?_, ?_⟩
  · obtain ⟨hkm, u, hu, hv⟩ := hall k hge hk
    exact ⟨u, hu, hv ▸ hread k hge hkm⟩
  · obtain ⟨id, hid, hlook⟩ := hlisted.all k hge hk
    obtain ⟨id', hid', hlook'⟩ := hlisted.all k' hge' hk'
    have hsame : msgIdOf storeHost cq k = msgIdOf storeHost cq k' := by
      rw [msgIdOf, msgIdOf, hu, hu', Option.bind_some, Option.bind_some, heq]
    rw [hid, hid'] at hsame
    cases hsame
    exact Option.some.inj (hlook.symm.trans hlook')
  · rcases hended with ⟨hbefore, -⟩ | ⟨-, hbounded⟩ | ⟨hafter, -⟩
    · have hlast := (hall _ (Nat.le_add_right _ m) hbefore).1
      omega
    · exact hbounded
    · obtain ⟨m, rfl⟩ : ∃ n, m = n + 1 := ⟨m - 1, by omega⟩
      have hlook : (insertIds addr (valueAt cq minOffset) (low cq minOffset) (m + 1) ∅).lookup
          (createMessageId addr (valueAt cq minOffset (low cq minOffset + m))) =
            some (low cq minOffset + m) := by
        rw [insertIds_succ, AList.lookup_insert]
      have hout := (hlisted.only _ _ hlook).2.1
      omega

lemma listed_of_enumerable (h : WholeQueue cq) (hlt : low cq minOffset < high cq maxOffset)
    (he : Enumerable storeHost cq minOffset maxOffset shutdown) :
    ∃ ids, Returns storeHost cq minOffset maxOffset shutdown ids ∧
      Listed storeHost cq minOffset maxOffset ids := by
  obtain ⟨rfl, hhost, hreads, hdistinct, hbounded⟩ := he
  obtain ⟨addr, haddr⟩ := Option.isSome_iff_exists.mp hhost
  obtain ⟨m, hspec, hended, hread⟩ :=
    @returns_spec cq minOffset storeHost maxOffset addr h haddr hlt
  have hm : (low cq minOffset + m : ℤ) = high cq maxOffset := by
    rcases hended with ⟨hbefore, hnone⟩ | ⟨hend, -⟩ | ⟨-, hnot⟩
    · obtain ⟨u, -, hsome⟩ := hreads _ (Nat.le_add_right _ m) hbefore
      cases hnone.symm.trans hsome
    · exact_mod_cast hend
    · exact absurd hbounded hnot
  have hentry : ∀ k, low cq minOffset ≤ k → k < low cq minOffset + m →
      ∃ u, entryAt cq k = some u ∧ valueAt cq minOffset k = u.offset := by
    intro k hge hk
    obtain ⟨u, hu, hsome⟩ := hreads k hge (by omega)
    exact ⟨u, hu, Option.some.inj ((hread k hge hk).symm.trans hsome)⟩
  refine ⟨_, hspec, ⟨fun k hge hk => ?_, fun id k hlook => ?_⟩⟩
  · obtain ⟨u, hu, hv⟩ := hentry k hge (by omega)
    refine ⟨_, msgIdOf_eq_some.mpr ⟨u, addr, hu, haddr, rfl⟩, ?_⟩
    rw [← hv]
    refine lookup_insertIds_of_inj (fun i j hi hi' hj hj' heq => ?_) hge (by omega)
    obtain ⟨u, hu, hv⟩ := hentry i hi hi'
    obtain ⟨u', hu', hv'⟩ := hentry j hj hj'
    exact hdistinct i j u u' hi (by omega) hj (by omega) hu hu' (hv.symm.trans (heq.trans hv'))
  · obtain ⟨hge, hk, rfl⟩ := lookup_insertIds hlook
    obtain ⟨u, hu, hv⟩ := hentry k hge hk
    exact ⟨hge, by omega, msgIdOf_eq_some.mpr ⟨u, addr, hu, haddr, by rw [hv]⟩⟩

/-- **Message identifiers.** -/
theorem listed_iff (h : WholeQueue cq) :
    (∃ ids, Returns storeHost cq minOffset maxOffset shutdown ids ∧
      Listed storeHost cq minOffset maxOffset ids) ↔
      (low cq minOffset < high cq maxOffset →
        Enumerable storeHost cq minOffset maxOffset shutdown) := by
  rcases lt_or_ge (low cq minOffset : ℤ) (high cq maxOffset) with hlt | hge
  · constructor
    · rintro ⟨ids, hreturns, hlisted⟩ -
      exact enumerable_of_listed h hlt hreturns hlisted
    · exact fun he => listed_of_enumerable h hlt (he hlt)
  · refine iff_of_true ⟨∅, returns_empty hge, ⟨fun k hlow hhigh => by omega, ?_⟩⟩
      fun hlt => by omega
    intro id k hlook
    cases hlook

end

lemma pos_60 : 0 < 60 := by decide

/-- Three records of one hundred bytes, in one file. -/
def threeEntries : ConsumeQueue :=
  ⟨⟨60, pos_60, [{ fileFromOffset := 0
                   mappedByteBuffer := [⟨0, 100, 0⟩, ⟨100, 100, 0⟩, ⟨200, 100, 0⟩]
                   wrotePostion := 60 }], 0, 0⟩, 200, 0⟩

def localhost : InetSocketAddress := ⟨.inet4 127 0 0 1, 10911⟩

lemma whole_threeEntries : WholeQueue threeEntries where
  chained := ⟨.singleton _, by simp [extents, threeEntries, extent],
    by simp [extents, threeEntries, extent]⟩
  dvd := by decide
  mapped := by simp [threeEntries, CQStoreUnitSize]
  wrote := by simp [threeEntries, CQStoreUnitSize]

theorem listed_first : (∃ ids, Returns localhost threeEntries 0 1 false ids ∧
    Listed localhost threeEntries 0 1 ids) ↔
      (low threeEntries 0 < high threeEntries 1 → Enumerable localhost threeEntries 0 1 false) :=
  listed_iff whole_threeEntries

/-- The second entry is read eight bytes behind the first. -/
theorem listed_second : ¬ ∀ storeHost cq minOffset maxOffset, WholeQueue cq →
    ∃ ids, Returns storeHost cq minOffset maxOffset false ids ∧
      Listed storeHost cq minOffset maxOffset ids := by
  intro h
  obtain ⟨ids, hreturns, hlisted⟩ := h localhost threeEntries 0 3 whole_threeEntries
  have he := enumerable_of_listed whole_threeEntries (by decide) hreturns hlisted
  obtain ⟨u, hu, hread⟩ := he.read 1 (by decide) (by decide)
  have hentry : entryAt threeEntries 1 = some ⟨100, 100, 0⟩ := by decide
  cases hentry.symm.trans hu
  exact absurd hread (by decide)

end CloudMQ.MessageIds
