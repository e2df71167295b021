import CloudMQ.GetMessage

/-!
Pulls that follow each other, over a log whose first files may be gone.

Each pull goes on where the one before ended. An entry that matches is answered exactly once as
long as its record can be read, however the loop ended: at a limit of the batch, behind files that
are being removed, at the cap of the entries, or at the end of a file of the queue.

The log looks an entry at offset zero up in its first file, wherever that begins. When the file
that began at zero is deleted, the beginning of another one is answered in place of its record.
-/

namespace CloudMQ.PullScan

open CloudMQ.Buffer CloudMQ.Utf8 CloudMQ.Segment CloudMQ.Chain CloudMQ.Append CloudMQ.LogBytes
open CloudMQ.Units CloudMQ.ConsumeQueues CloudMQ.QueueEntries CloudMQ.Dispatch CloudMQ.TagFilter
open CloudMQ.GetMessage
open CloudMQ.MessageDecoder (findMapedFile)

/-! ### What a pull is to answer -/

section Asked

/-- The file has the place and can be read. -/
def Serves (log : MapedFileQueue Bytes) (o : ℕ) (f : MapedFile Bytes) : Prop :=
  f.available ∧ f.fileFromOffset ≤ o ∧ o < f.fileFromOffset + log.mapedFileSize

instance (log : MapedFileQueue Bytes) (o : ℕ) (f : MapedFile Bytes) : Decidable (Serves log o f) :=
  inferInstanceAs (Decidable (_ ∧ _))

/-- The record of an entry, where a file of the log has it and can be read. -/
def recordAt (log : MapedFileQueue Bytes) (u : CQUnit) : Option SelectMapedBufferResult :=
  let o := u.offset.toInt.toNat
  (log.mapedFiles.find? fun f => decide (Serves log o f)).map fun f =>
    ⟨o, (f.mappedByteBuffer.drop (o - f.fileFromOffset)).take u.size.toInt.toNat⟩

/-- The entry points at a record: at a part of one file, of what was written to the log. -/
structure PointsAt (log : MapedFileQueue Bytes) (u : CQUnit) : Prop where
  nonneg : 0 ≤ u.offset.toInt
  size_pos : 0 < u.size.toInt
  within : u.offset.toInt.toNat % log.mapedFileSize + u.size.toInt.toNat ≤ log.mapedFileSize
  written : u.offset.toInt + u.size.toInt ≤ log.getMaxOffset

variable (s : MessageStore) (key : Text × Int32) (data : Option SubscriptionData)

/-- The entry with the given number, where its file can be read. -/
def entry (i : ℕ) : Option CQUnit := findUnit CQStoreUnitSize (s.queue key).mapedFileQueue i

/-- What an entry asks for: its record, if it matches. -/
def asked (u : CQUnit) : Option SelectMapedBufferResult :=
  if isMessageMatched data u.tagsCode then recordAt s.commitLog u else none

/-- What the entries from `a` to before `b` ask for, in the order of the queue. -/
def asks (a b : ℕ) : List SelectMapedBufferResult :=
  (List.range' a (b - a)).filterMap fun i => (entry s key i).bind (asked s data)

/-- A running store with a queue whose entries point at records. The files of the log that cannot
be read are the first ones, and some before them may be deleted. -/
structure Pullable : Prop where
  running : s.shutdown = false
  readable : s.readable = true
  dvd_min : CQStoreUnitSize ∣ (s.queue key).minLogicOffset
  points : ∀ i u, (s.queue key).getMinOffsetInQuque ≤ i → entry s key i = some u →
    PointsAt s.commitLog u
  removing : s.commitLog.mapedFiles.Pairwise fun f g => f.available → g.available

variable (maxMsgNums : Int32)

/-- Pulls that follow each other, each from where the one before ended, and their messages. -/
inductive Follow : ℕ → List SelectMapedBufferResult → ℕ → Prop
  | refl (offset : ℕ) : Follow offset [] offset
  | pull {offset next o : ℕ} {result : GetMessageResult} {ms : List SelectMapedBufferResult}
      (hlt : offset < (s.queue key).getMaxOffsetInQuque)
      (hget : s.getMessage key.1 key.2 offset maxMsgNums data = .ok (some result))
      (hnext : result.nextBeginOffset = next) (hrest : Follow next ms o) :
      Follow offset (result.messageMapedList ++ ms) o

/-- **Pulling from an offset.** One pull goes on, and answers what the entries that it goes over
ask for; and so do pulls that follow each other, up to the end of the queue. -/
structure Pulls (offset : ℕ) : Prop where
  single : ∃ result, s.getMessage key.1 key.2 offset maxMsgNums data = .ok (some result) ∧
    ∃ next : ℕ, result.nextBeginOffset = next ∧ offset < next ∧
      (result.messageMapedList.length : ℤ) ≤ maxMsgNums.toInt ∧
      result.messageMapedList = asks s key data offset next
  follow : ∀ ms o, Follow s key data maxMsgNums offset ms o → ms = asks s key data offset o
  all : ∃ o, (s.queue key).getMaxOffsetInQuque ≤ o ∧
    Follow s key data maxMsgNums offset
      (asks s key data offset (s.queue key).getMaxOffsetInQuque) o

/-- The record of the entry is gone, and the beginning of another file is taken for it. -/
def Misread (log : MapedFileQueue Bytes) (u : CQUnit) : Prop :=
  u.offset = 0 ∧ ∃ first, log.mapedFiles.head? = some first ∧ first.fileFromOffset ≠ 0 ∧
    first.available ∧ u.size.toInt ≤ first.wrotePostion

/-- A misread entry that matches. -/
def MisreadAt (i : ℕ) : Prop :=
  ∃ u, entry s key i = some u ∧ isMessageMatched data u.tagsCode ∧ Misread s.commitLog u

end Asked

/-! ### Reading a record -/

section Read

variable {log : MapedFileQueue Bytes} {u : CQUnit} {f g : MapedFile Bytes} {o o' : ℕ}

lemma recordAt_of_serves (hc : Chained log) (hf : f ∈ log.mapedFiles)
    (hs : Serves log u.offset.toInt.toNat f) :
    recordAt log u = some ⟨u.offset.toInt.toNat,
      (f.mappedByteBuffer.drop (u.offset.toInt.toNat - f.fileFromOffset)).take
        u.size.toInt.toNat⟩ := by
  have hsome : (log.mapedFiles.find? fun f =>
      decide (Serves log u.offset.toInt.toNat f)).isSome := by
    rw [List.find?_isSome]
    exact ⟨f, hf, decide_eq_true hs⟩
  obtain ⟨g, hg⟩ := Option.isSome_iff_exists.mp hsome
  have hgs := List.find?_some hg
  simp only [decide_eq_true_eq] at hgs
  -- one file has the place
  have hsame : g = f := by
    have hfind := find_of_mem hc (List.mem_of_find?_eq_some hg) hgs.2.1 hgs.2.2 false
    rw [find_of_mem hc hf hs.2.1 hs.2.2 false] at hfind
    exact (Option.some.inj hfind).symm
  rw [recordAt, hg, hsame]
  rfl

lemma recordAt_eq_none (h : ∀ f ∈ log.mapedFiles, ¬Serves log u.offset.toInt.toNat f) :
    recordAt log u = none := by
  rw [recordAt, List.find?_eq_none.mpr fun f hf => by simpa using h f hf]
  rfl

/-- The record is written to the file that has its place. -/
lemma PointsAt.wrote (hu : PointsAt log u) (hc : Chained log) (hf : f ∈ log.mapedFiles)
    (hle : f.fileFromOffset ≤ u.offset.toInt.toNat)
    (hlt : u.offset.toInt.toNat < f.fileFromOffset + log.mapedFileSize) :
    u.offset.toInt.toNat - f.fileFromOffset + u.size.toInt.toNat ≤ f.wrotePostion := by
  have hwithin := hu.within
  have hwritten := hu.written
  have hnonneg := hu.nonneg
  have hpos := hu.size_pos
  rw [mod_eq_sub hc hf hle hlt] at hwithin
  by_cases hfull : f.wrotePostion = log.mapedFileSize
  · rwa [hfull]
  · rw [max_of_not_full hc hf hfull] at hwritten
    omega

/-- A record behind one that can be read can be read. -/
lemma serves_mono (hc : Chained log)
    (hremoving : log.mapedFiles.Pairwise fun f g => f.available → g.available)
    (hf : f ∈ log.mapedFiles) (hs : Serves log o f)
    (hdiv : o / log.mapedFileSize ≤ o' / log.mapedFileSize) (hmax : o' < log.getMaxOffset) :
    ∃ g ∈ log.mapedFiles, Serves log o' g := by
  obtain ⟨havailable, hle, hlt⟩ := hs
  obtain ⟨first, rest, hfiles⟩ := List.exists_cons_of_ne_nil (List.ne_nil_of_mem hf)
  obtain ⟨i, hi⟩ := List.getElem?_of_mem hf
  have hstart := start_of_index hc hfiles hi
  obtain ⟨m, hm⟩ := hc.aligned (extent f) (List.mem_map_of_mem hf)
  change f.fileFromOffset = log.mapedFileSize * m at hm
  have hpos := log.size_pos
  have hfrom : f.fileFromOffset ≤ o' := by
    have hmo : m ≤ o / log.mapedFileSize := by
      rw [Nat.le_div_iff_mul_le hpos, Nat.mul_comm]
      omega
    rw [hm, Nat.mul_comm]
    exact (Nat.le_div_iff_mul_le hpos).mp (hmo.trans hdiv)
  have hmin : log.getMinOffset ≤ (o' : ℤ) := by
    rw [MapedFileQueue.getMinOffset, hfiles]
    simp only [List.head?_cons]
    omega
  obtain ⟨g, hg, hgle, hglt⟩ := exists_file hc hmin hmax
  obtain ⟨j, hj⟩ := List.getElem?_of_mem hg
  refine ⟨g, hg, ?_, hgle, hglt⟩
  rcases Nat.lt_trichotomy i j with hij | rfl | hij
  · obtain ⟨hilen, rfl⟩ := List.getElem?_eq_some_iff.mp hi
    obtain ⟨hjlen, rfl⟩ := List.getElem?_eq_some_iff.mp hj
    exact List.pairwise_iff_getElem.mp hremoving i j hilen hjlen hij havailable
  · rw [hi, Option.some.injEq] at hj
    exact hj ▸ havailable
  · -- the file of a later place does not come before
    have := end_le_start hc hij hj hi
    omega

/-- For offset zero, the lookup falls back to the first file. -/
lemma find_zero {first : MapedFile Bytes} {rest : List (MapedFile Bytes)}
    (hfiles : log.mapedFiles = first :: rest) : log.findMapedFileByOffset 0 true = some first := by
  rw [MapedFileQueue.findMapedFileByOffset, hfiles]
  dsimp only
  split
  · next hindex =>
    have hzero : log.findIndex first 0 = 0 := by
      have h0 : 0 ≤ log.findIndex first 0 := hindex.1
      have hnonneg := Int.natCast_nonneg (first.fileFromOffset / log.mapedFileSize)
      rw [MapedFileQueue.findIndex, Nat.zero_div] at h0 ⊢
      omega
    rw [hzero]
    rfl
  · rfl

/-- The beginning of the first file, for an entry at offset zero. -/
lemma selectMessage_zero {first : MapedFile Bytes} {rest : List (MapedFile Bytes)} {size : Int32}
    (hfiles : log.mapedFiles = first :: rest) (hpos : 0 < size.toInt) :
    selectMessage log 0 size =
      if first.available ∧ size.toInt ≤ first.wrotePostion then
        .ok (some ⟨first.fileFromOffset, first.mappedByteBuffer.take size.toInt.toNat⟩)
      else .ok none := by
  have hsmall := size.toInt_lt
  have hfind : findMapedFile log (0 : Int64).toInt (decide ((0 : Int64) = 0)) = some first :=
    find_zero hfiles
  have hmod : (0 : Int64).toInt.tmod log.mapedFileSize = 0 := Int.zero_tmod _
  rw [selectMessage, hfind]
  dsimp only
  rw [hmod, MessageDecoder.selectMapedBuffer]
  by_cases hwrote : size.toInt ≤ first.wrotePostion
  · rw [if_pos (.inl (by omega))]
    by_cases havailable : first.available
    · rw [if_pos havailable, if_neg (by omega), if_pos ⟨havailable, hwrote⟩]
      rfl
    · rw [if_neg havailable, if_neg fun h => havailable h.1]
      rfl
  · rw [if_neg (by omega), if_neg fun h => hwrote h.2]
    rfl

/-- All the files begin behind a misread entry. -/
lemma Misread.not_le (h : Misread log u) (hc : Chained log) (hf : f ∈ log.mapedFiles) :
    ¬f.fileFromOffset ≤ u.offset.toInt.toNat := by
  obtain ⟨hzero, first, hfirst, hne, -⟩ := h
  obtain ⟨rest, hfiles⟩ := List.head?_eq_some_iff.mp hfirst
  obtain ⟨i, hi⟩ := List.getElem?_of_mem hf
  have hstart := start_of_index hc hfiles hi
  rw [hzero]
  change ¬f.fileFromOffset ≤ 0
  omega

/-- What the log answers for an entry: its record; nothing, when that cannot be read; or the
beginning of another file. -/
lemma selectMessage_cases (hc : Chained log) (hu : PointsAt log u) :
    (∃ r, recordAt log u = some r ∧ selectMessage log u.offset u.size = .ok (some r)) ∨
    (recordAt log u = none ∧ ¬Misread log u ∧ selectMessage log u.offset u.size = .ok none) ∨
    (recordAt log u = none ∧ Misread log u ∧
      ∃ r, selectMessage log u.offset u.size = .ok (some r)) := by
  have hnonneg := hu.nonneg
  have hpos := hu.size_pos
  have hwritten := hu.written
  have hint : u.offset.toInt = (u.offset.toInt.toNat : ℤ) := by omega
  have hmod : u.offset.toInt.tmod log.mapedFileSize =
      ((u.offset.toInt.toNat % log.mapedFileSize : ℕ) : ℤ) := by
    rw [hint, Int.toNat_natCast, Int.ofNat_tmod]
  by_cases hcover : ∃ f ∈ log.mapedFiles, f.fileFromOffset ≤ u.offset.toInt.toNat ∧
      u.offset.toInt.toNat < f.fileFromOffset + log.mapedFileSize
  · obtain ⟨f, hf, hle, hlt⟩ := hcover
    have hwrote := hu.wrote hc hf hle hlt
    by_cases havailable : f.available
    · refine .inl ⟨_, recordAt_of_serves hc hf ⟨havailable, hle, hlt⟩, ?_⟩
      have hplace : f.fileFromOffset + (u.offset.toInt.toNat - f.fileFromOffset) =
          u.offset.toInt.toNat := by omega
      rw [selectMessage_of_mem hc hf (by omega) (by omega) hpos.le havailable hwrote, hplace]
    · have hnone : ∀ g ∈ log.mapedFiles, ¬Serves log u.offset.toInt.toNat g := by
        rintro g hg ⟨hgavailable, hgle, hglt⟩
        have hfind := find_of_mem hc hg hgle hglt false
        rw [find_of_mem hc hf hle hlt false, Option.some.injEq] at hfind
        exact havailable (hfind ▸ hgavailable)
      refine .inr (.inl ⟨recordAt_eq_none hnone, ?_, ?_⟩)
      · exact fun hmis => hmis.not_le hc hf hle
      · rw [selectMessage, findMapedFile, if_pos hnonneg, find_of_mem hc hf hle hlt]
        dsimp only
        rw [hmod, mod_eq_sub hc hf hle hlt, MessageDecoder.selectMapedBuffer,
          if_pos (.inl (by omega)), if_neg havailable]
        rfl
  · have hnone : ∀ g ∈ log.mapedFiles, ¬Serves log u.offset.toInt.toNat g :=
      fun g hg hs => hcover ⟨g, hg, hs.2⟩
    by_cases hzero : u.offset = 0
    · have hne : log.mapedFiles ≠ [] := by
        intro hnil
        rw [MapedFileQueue.getMaxOffset, hnil] at hwritten
        simp only [List.getLast?_nil] at hwritten
        omega
      obtain ⟨first, rest, hfiles⟩ := List.exists_cons_of_ne_nil hne
      have hfirst : first.fileFromOffset ≠ 0 := fun h =>
        hcover ⟨first, by simp [hfiles], by rw [h]; exact Nat.zero_le _, by
          rw [h, hzero]
          exact Nat.add_pos_right 0 log.size_pos⟩
      have hselect := selectMessage_zero hfiles hpos
      rw [← hzero] at hselect
      by_cases htaken : first.available ∧ u.size.toInt ≤ first.wrotePostion
      · rw [if_pos htaken] at hselect
        exact .inr (.inr ⟨recordAt_eq_none hnone,
          ⟨hzero, first, by rw [hfiles]; rfl, hfirst, htaken⟩, _, hselect⟩)
      · rw [if_neg htaken] at hselect
        refine .inr (.inl ⟨recordAt_eq_none hnone, ?_, hselect⟩)
        rintro ⟨-, first', hfirst', -, htaken'⟩
        rw [hfiles, List.head?_cons, Option.some.injEq] at hfirst'
        exact htaken (hfirst' ▸ htaken')
    · refine .inr (.inl ⟨recordAt_eq_none hnone, fun h => hzero h.1, ?_⟩)
      have hfind : log.findMapedFileByOffset u.offset.toInt.toNat false = none := by
        cases hfind : log.findMapedFileByOffset u.offset.toInt.toNat false with
        | none => rfl
        | some f => exact absurd ⟨f, mem_of_find hc hfind⟩ hcover
      rw [selectMessage, findMapedFile, if_pos hnonneg, decide_eq_false hzero, hfind]

end Read

/-! ### The loop -/

section Loop

variable {s : MessageStore} {key : Text × Int32} {data : Option SubscriptionData}
  {maxMsgNums : Int32} {u : CQUnit} {us : List CQUnit} {t t' t₁ : Scan} {k : ℕ}

/-- The loop on its way: there is room up to the limit of the pull, and what the entries that are
passed over point at cannot be read. -/
structure Going (s : MessageStore) (maxMsgNums : Int32) (t : Scan) : Prop where
  count : (t.messageMapedList.length : ℤ) ≤ maxMsgNums.toInt
  room : t.bufferTotalSize = 0 → (t.messageMapedList.length : ℤ) + 1 ≤ maxMsgNums.toInt
  first : t.messageMapedList = [] → t.bufferTotalSize = 0
  removing : ∀ next, t.nextPhyFileStartOffset = some next → ∀ u, PointsAt s.commitLog u →
    u.offset.toInt < next → recordAt s.commitLog u = none

lemma going_start (hmax : 1 ≤ maxMsgNums.toInt) : Going s maxMsgNums {} where
  count := by
    change (0 : ℤ) ≤ _
    omega
  room _ := hmax
  first _ := rfl
  removing _ h := absurd h (Option.some_ne_none _).symm

/-- A batch with room for a message. -/
lemma room_of_not_full (hcount : t.messageMapedList.length < 2 ^ 31 - 1)
    (hroom : ¬s.isFullAt maxMsgNums t.bufferTotalSize (Int32.ofNat t.messageMapedList.length) u) :
    t.bufferTotalSize = 0 ∨ t.messageMapedList = [] ∨
      (t.messageMapedList.length : ℤ) + 1 < maxMsgNums.toInt := by
  rw [MessageStore.isFullAt, isTheBatchFull] at hroom
  have hint : (Int32.ofNat t.messageMapedList.length).toInt = t.messageMapedList.length :=
    Int32.toInt_ofNat_of_lt (by omega)
  have hsucc : (Int32.ofNat t.messageMapedList.length + 1).toInt =
      t.messageMapedList.length + 1 := by
    have hsum := Int32.ofNat_add t.messageMapedList.length 1
    change _ = Int32.ofNat t.messageMapedList.length + 1 at hsum
    rw [← hsum, Int32.toInt_ofNat_of_lt (by omega)]
    rfl
  split at hroom
  · next hfirst =>
    refine hfirst.imp_right fun h => .inl (List.length_eq_zero_iff.mp ?_)
    rw [h] at hint
    change (0 : ℤ) = _ at hint
    omega
  · split at hroom
    · exact absurd rfl hroom
    · next hlimit =>
      rw [Int32.le_iff_toInt_le, hsucc] at hlimit
      exact .inr (.inr (by omega))

lemma Going.removing_file (hg : Going s maxMsgNums t) (h : Pullable s key)
    (hu : PointsAt s.commitLog u) (hnone : recordAt s.commitLog u = none) :
    Going s maxMsgNums (s.wasRemoving t u) where
  count := hg.count
  room := hg.room
  first := hg.first
  removing next hnext v hv hlt := by
    obtain rfl := Option.some.inj hnext
    refine recordAt_eq_none fun f hf hs => ?_
    -- the record of `u` is no further on than the one of `v`
    have hpos := s.commitLog.size_pos
    have hnonneg := hu.nonneg
    have hnonneg' := hv.nonneg
    have hwritten := hu.written
    have hsize := hu.size_pos
    have hint : u.offset.toInt = (u.offset.toInt.toNat : ℤ) := by omega
    have hroll : v.offset.toInt.toNat < u.offset.toInt.toNat + s.commitLog.mapedFileSize -
        u.offset.toInt.toNat % s.commitLog.mapedFileSize := by
      rw [rollNextFile, hint, ← Int.ofNat_tmod] at hlt
      omega
    have hdiv : v.offset.toInt.toNat / s.commitLog.mapedFileSize ≤
        u.offset.toInt.toNat / s.commitLog.mapedFileSize := by
      rw [← Nat.lt_succ_iff, Nat.div_lt_iff_lt_mul hpos, Nat.succ_mul, Nat.mul_comm]
      have hmod := Nat.div_add_mod u.offset.toInt.toNat s.commitLog.mapedFileSize
      omega
    obtain ⟨g, hg, hserves⟩ := serves_mono s.chained h.removing hf hs hdiv (by omega)
    rw [recordAt_of_serves s.chained hg hserves] at hnone
    exact absurd hnone (by simp)

/-- A turn answers what its entry asks for, and nothing else unless the entry is misread. -/
lemma turn_asks (h : Pullable s key) (hu : PointsAt s.commitLog u) (hg : Going s maxMsgNums t)
    (hcount : t.messageMapedList.length < 2 ^ 31 - 1) (hturn : Turn s maxMsgNums data u t t₁) :
    Going s maxMsgNums t₁ ∧ ∃ ms, t₁.messageMapedList = t.messageMapedList ++ ms ∧
      ms.length ≤ 1 ∧ List.Sublist (asked s data u).toList ms ∧
      (¬(isMessageMatched data u.tagsCode ∧ Misread s.commitLog u) →
        ms = (asked s data u).toList) := by
  have hgoing : Going s maxMsgNums { t with maxPhyOffsetPulling := u.offset.toInt } :=
    ⟨hg.count, hg.room, hg.first, hg.removing⟩
  cases hturn with
  | passed hover =>
    rw [MessageStore.passesOver] at hover
    have hnone : asked s data u = none := by
      rw [asked]
      split
      · cases hnext : t.nextPhyFileStartOffset with
        | none => simp [hnext] at hover
        | some next =>
          simp only [hnext, decide_eq_true_eq] at hover
          exact hg.removing next hnext u hu hover
      · rfl
    rw [hnone]
    exact ⟨hgoing, [], (List.append_nil _).symm, by simp, List.Sublist.refl _, fun _ => rfl⟩
  | added r hroom hmatch hread =>
    have hadd := room_of_not_full hcount hroom
    have hpos := hu.size_pos
    have hlimit : (t.messageMapedList.length : ℤ) + 1 < maxMsgNums.toInt ∨
        t.bufferTotalSize = 0 ∧ (t.messageMapedList.length : ℤ) + 1 ≤ maxMsgNums.toInt := by
      rcases hadd with hzero | hnil | hlt
      · exact .inr ⟨hzero, hg.room hzero⟩
      · exact .inr ⟨hg.first hnil, hg.room (hg.first hnil)⟩
      · exact .inl hlt
    have hlen : ((t.messageMapedList ++ [r]).length : ℤ) = t.messageMapedList.length + 1 := by
      simp
    refine ⟨⟨?_, fun hzero => ?_, fun hnil => ?_, fun _ hnext => absurd hnext
      (Option.some_ne_none _).symm⟩, [r], rfl, ?_⟩
    · change ((t.messageMapedList ++ [r]).length : ℤ) ≤ _
      omega
    · change t.bufferTotalSize + u.size = 0 at hzero
      change ((t.messageMapedList ++ [r]).length : ℤ) + 1 ≤ _
      rcases hlimit with hlt | ⟨hbuffer, -⟩
      · omega
      · rw [hbuffer, Int32.zero_add] at hzero
        rw [hzero] at hpos
        exact absurd hpos (by decide)
    · exact absurd hnil (by simp [MessageStore.addMessage])
    · rw [asked, if_pos hmatch]
      rcases selectMessage_cases s.chained hu with ⟨r', hr', hsel⟩ | ⟨hnone, -, hsel⟩ |
        ⟨hnone, hmis, -⟩
      · rw [MessageStore.read, hsel] at hread
        obtain rfl := Option.some.inj (Except.ok.inj hread)
        rw [hr']
        exact ⟨le_rfl, List.Sublist.refl _, fun _ => rfl⟩
      · rw [MessageStore.read, hsel] at hread
        exact absurd hread (by simp)
      · rw [hnone]
        exact ⟨le_rfl, List.nil_sublist _, fun h => absurd ⟨hmatch, hmis⟩ h⟩
  | removing hroom hmatch hread =>
    have hnone : recordAt s.commitLog u = none := by
      rcases selectMessage_cases s.chained hu with ⟨r', -, hsel⟩ | ⟨hnone, -⟩ | ⟨hnone, -⟩
      · rw [MessageStore.read, hsel] at hread
        exact absurd hread (by simp)
      · exact hnone
      · exact hnone
    rw [asked, if_pos hmatch, hnone]
    exact ⟨hgoing.removing_file h hu hnone, [], (List.append_nil _).symm, by simp,
      List.Sublist.refl _, fun _ => rfl⟩
  | notMatched hroom hmatch =>
    rw [asked, if_neg hmatch]
    exact ⟨⟨hg.count, hg.room, hg.first, hg.removing⟩, [], (List.append_nil _).symm, by simp,
      List.Sublist.refl _, fun _ => rfl⟩

/-- **The loop** answers what the entries that it goes over ask for, in their order; more, only
where one of them is misread. -/
lemma scan_asks (h : Pullable s key) (hus : ∀ u ∈ us, PointsAt s.commitLog u)
    (hg : Going s maxMsgNums t) (hcount : t.messageMapedList.length + us.length < 2 ^ 31)
    (hscan : s.scan maxMsgNums data us t = .ok (k, t')) :
    k ≤ us.length ∧ (t'.messageMapedList.length : ℤ) ≤ maxMsgNums.toInt ∧
      ∃ ms, t'.messageMapedList = t.messageMapedList ++ ms ∧
        List.Sublist ((us.take k).filterMap (asked s data)) ms ∧
        ((∀ u ∈ us.take k, ¬(isMessageMatched data u.tagsCode ∧ Misread s.commitLog u)) →
          ms = (us.take k).filterMap (asked s data)) := by
  induction us generalizing t k with
  | nil =>
    obtain ⟨rfl, rfl⟩ := Prod.mk.inj (Except.ok.inj hscan)
    exact ⟨le_rfl, hg.count, [], (List.append_nil _).symm, List.Sublist.refl _, fun _ => rfl⟩
  | cons u us ih =>
    rcases scan_cons hscan with ⟨rfl, rfl, -, -⟩ | ⟨k', t₁, rfl, hturn, hrest⟩
    · exact ⟨Nat.zero_le _, hg.count, [], (List.append_nil _).symm, List.Sublist.refl _,
        fun _ => rfl⟩
    rw [List.length_cons] at hcount
    obtain ⟨hg₁, ms₁, hms₁, hlen₁, hsub₁, heq₁⟩ :=
      turn_asks h (hus u List.mem_cons_self) hg (by omega) hturn
    have hcount₁ : t₁.messageMapedList.length + us.length < 2 ^ 31 := by
      rw [hms₁, List.length_append]
      omega
    obtain ⟨hk, hlen, ms, hms, hsub, heq⟩ :=
      ih (fun v hv => hus v (List.mem_cons_of_mem _ hv)) hg₁ hcount₁ hrest
    have hcons : ((u :: us).take (k' + 1)).filterMap (asked s data) =
        (asked s data u).toList ++ (us.take k').filterMap (asked s data) := by
      rw [List.take_succ_cons, List.filterMap_cons]
      cases asked s data u with
      | none => rfl
      | some r => rfl
    refine ⟨Nat.succ_le_succ hk, hlen, ms₁ ++ ms, by rw [hms, hms₁, List.append_assoc], ?_, ?_⟩
    · rw [hcons]
      exact hsub₁.append hsub
    · intro hgood
      rw [List.take_succ_cons] at hgood
      rw [hcons, heq₁ (hgood u List.mem_cons_self),
        heq fun v hv => hgood v (List.mem_cons_of_mem _ hv)]

/-- The loop does not fail. -/
lemma scan_ok (hus : ∀ u ∈ us, PointsAt s.commitLog u) :
    ∃ r, s.scan maxMsgNums data us t = .ok r := by
  induction us generalizing t with
  | nil => exact ⟨_, rfl⟩
  | cons u us ih =>
    have hmap : ∀ t, ∃ r, (s.scan maxMsgNums data us t).map (fun r => (r.1 + 1, r.2)) = .ok r := by
      intro t
      obtain ⟨r, hr⟩ := @ih t fun v hv => hus v (List.mem_cons_of_mem _ hv)
      exact ⟨_, by rw [hr]; rfl⟩
    rw [MessageStore.scan]
    dsimp only
    split
    · exact hmap _
    split
    · exact ⟨_, rfl⟩
    split
    · rcases selectMessage_cases s.chained (hus u List.mem_cons_self) with
        ⟨r, -, hsel⟩ | ⟨-, -, hsel⟩ | ⟨-, -, r, hsel⟩
      · rw [MessageStore.read, hsel]
        exact hmap _
      · rw [MessageStore.read, hsel]
        exact hmap _
      · rw [MessageStore.read, hsel]
        exact hmap _
    · exact hmap _

/-- The first entry is taken. -/
lemma scan_first (hscan : s.scan maxMsgNums data (u :: us) {} = .ok (k, t')) :
    ∃ k' t₁, k = k' + 1 ∧ Turn s maxMsgNums data u {} t₁ ∧
      s.scan maxMsgNums data us t₁ = .ok (k', t') := by
  rcases scan_cons hscan with ⟨-, -, -, hfull⟩ | hturn
  · have hfree : s.isFullAt maxMsgNums 0 (Int32.ofNat 0) u = false := by
      rw [MessageStore.isFullAt, isTheBatchFull, if_pos (.inl rfl)]
    exact absurd (hfull.symm.trans hfree) (by simp)
  · exact hturn

end Loop

/-! ### The entries of a buffer -/

section Entries

variable {s : MessageStore} {key : Text × Int32} {data : Option SubscriptionData}
  {p i j a b c : ℕ} {us : List CQUnit}

/-- The file an entry lies in. -/
lemma file_of_entry {u : CQUnit} (hu : entry s key i = some u) :
    ∃ f ∈ (s.queue key).mapedFileQueue.mapedFiles, f.available ∧
      f.fileFromOffset ≤ CQStoreUnitSize * i ∧
      CQStoreUnitSize * i < f.fileFromOffset + f.wrotePostion := by
  obtain ⟨f, hfind, hu⟩ := Option.bind_eq_some_iff.mp hu
  split at hu
  swap
  · exact absurd hu (by simp)
  next hwrote =>
  have hc := (s.whole_queue key).chained
  obtain ⟨hf, hle, hlt⟩ := mem_of_find hc hfind
  rw [mod_eq_sub hc hf hle hlt] at hwrote
  exact ⟨f, hf, hwrote.2, hle, by omega⟩

/-- Behind the end of the queue there are no entries. -/
lemma lt_max_of_entry {u : CQUnit} (hu : entry s key i = some u) :
    i < (s.queue key).getMaxOffsetInQuque := by
  have hw := s.whole_queue key
  obtain ⟨f, hf, -, -, hlt⟩ := file_of_entry hu
  have := wrote_le_max hw.chained hf
  rw [lt_getMaxOffsetInQuque hw]
  omega

/-- A buffer begins with the entries that are read by their numbers. -/
lemma entry_of_buffer (hb : getIndexBuffer (s.queue key) p = some us) (hj : j < us.length) :
    entry s key (p + j) = us[j]? := by
  have hw := s.whole_queue key
  obtain ⟨f, hf, havailable, hle, -, hend⟩ := getIndexBuffer_cases hw hb
  have hwrote := wrote_le hw.chained hf
  have h1 : CQStoreUnitSize * p ≤ CQStoreUnitSize * (p + j) := Nat.mul_le_mul_left _ (by omega)
  have h2 : CQStoreUnitSize * (p + j) < CQStoreUnitSize * (p + us.length) :=
    Nat.mul_lt_mul_of_pos_left (by omega) hw.pos
  have hfind := find_of_mem hw.chained hf (hle.trans h1) (by omega) false
  rw [← entryAt_of_getIndexBuffer hw hb hj, entry, findUnit, entryAt, unitAt, hfind]
  simp only [Option.bind_some, havailable, and_true]

/-- A pull goes on to the next multiple of the number of units of a file. -/
lemma rollNextQueueFile_eq (s : MessageStore) (key : Text × Int32) (p : ℕ) :
    ∃ n, 0 < n ∧ (s.queue key).mapedFileQueue.mapedFileSize = CQStoreUnitSize * n ∧
      rollNextQueueFile (s.queue key) p = ((p + n - p % n : ℕ) : ℤ) := by
  obtain ⟨n, hn⟩ := (s.whole_queue key).dvd
  have hsize := (s.queue key).mapedFileQueue.size_pos
  have hnpos : 0 < n := by
    rw [hn] at hsize
    exact Nat.pos_of_mul_pos_left hsize
  have htotal : (((s.queue key).mapedFileQueue.mapedFileSize : ℤ) / CQStoreUnitSize) = n := by
    rw [hn]
    push_cast
    exact Int.mul_ediv_cancel_left _ (by decide)
  have hmod := Nat.mod_lt p hnpos
  refine ⟨n, hnpos, hn, ?_⟩
  rw [rollNextQueueFile, htotal, ← Int.ofNat_tmod]
  omega

/-- Without a buffer, there are no entries up to the next file of the queue. -/
lemma entry_of_rolled (h : Pullable s key) (hmin : (s.queue key).getMinOffsetInQuque ≤ p)
    (hb : getIndexBuffer (s.queue key) p = none) (hpi : p ≤ i)
    (hroll : (i : ℤ) < rollNextQueueFile (s.queue key) p) : entry s key i = none := by
  have hw := s.whole_queue key
  cases hentry : entry s key i with
  | none => rfl
  | some u =>
    obtain ⟨f, hf, havailable, hle, hlt⟩ := file_of_entry hentry
    -- the two numbers belong to the same file
    obtain ⟨n, hnpos, hn, hnext⟩ := rollNextQueueFile_eq s key p
    obtain ⟨m, hm⟩ := hw.chained.aligned (extent f) (List.mem_map_of_mem hf)
    change f.fileFromOffset = (s.queue key).mapedFileQueue.mapedFileSize * m at hm
    have hroll' : i < p + n - p % n := by
      rw [hnext] at hroll
      exact_mod_cast hroll
    have hdiv := Nat.div_add_mod p n
    rw [hm, hn, Nat.mul_assoc] at hle
    have hmi : n * m ≤ i := Nat.le_of_mul_le_mul_left hle hw.pos
    have hmp : m ≤ p / n := by
      rw [← Nat.lt_succ_iff]
      refine Nat.lt_of_mul_lt_mul_left (a := n) ?_
      rw [Nat.mul_succ]
      omega
    have hfrom : f.fileFromOffset ≤ CQStoreUnitSize * p := by
      rw [hm, hn, Nat.mul_assoc]
      exact Nat.mul_le_mul_left _ ((Nat.mul_le_mul_left n hmp).trans (by omega))
    have hup : CQStoreUnitSize * p ≤ CQStoreUnitSize * i := Nat.mul_le_mul_left _ hpi
    obtain ⟨us, hus⟩ :=
      getIndexBuffer_isSome hw h.dvd_min hmin hf havailable hfrom (by omega)
    rw [hb] at hus
    exact absurd hus (by simp)

lemma asks_self : asks s key data a a = [] := by
  rw [asks, Nat.sub_self]
  rfl

lemma asks_append (hab : a ≤ b) (hbc : b ≤ c) :
    asks s key data a c = asks s key data a b ++ asks s key data b c := by
  have hsum : c - a = (b - a) + (c - b) := by omega
  have hmid : a + (b - a) = b := by omega
  rw [asks, asks, asks, hsum, ← List.range'_append_1, List.filterMap_append, hmid]

lemma asks_of_none (hnone : ∀ i, a ≤ i → i < b → entry s key i = none) :
    asks s key data a b = [] := by
  rw [asks, List.filterMap_eq_nil_iff]
  intro i hi
  rw [List.mem_range'_1] at hi
  rw [hnone i hi.1 (by omega)]
  rfl

lemma asks_of_entries {vs : List CQUnit} (hvs : ∀ j < vs.length, entry s key (a + j) = vs[j]?) :
    asks s key data a (a + vs.length) = vs.filterMap (asked s data) := by
  rw [asks, Nat.add_sub_cancel_left]
  induction vs generalizing a with
  | nil => rfl
  | cons v vs ih =>
    have hfirst := hvs 0 (Nat.succ_pos _)
    rw [Nat.add_zero, List.getElem?_cons_zero] at hfirst
    have hrest := ih (a := a + 1) fun j hj => by
      rw [Nat.add_assoc, Nat.add_comm 1, hvs (j + 1) (Nat.succ_lt_succ hj),
        List.getElem?_cons_succ]
    rw [List.length_cons, List.range'_succ, List.filterMap_cons, List.filterMap_cons, hfirst,
      Option.bind_some, hrest]

end Entries

/-! ### Pulling -/

section Pulling

variable {s : MessageStore} {key : Text × Int32} {data : Option SubscriptionData}
  {maxMsgNums : Int32} {p o start k : ℕ} {us : List CQUnit} {t' : Scan}

/-- The entries that a loop over a buffer gets to. -/
lemma entry_of_scanned (hb : getIndexBuffer (s.queue key) p = some us) {j : ℕ}
    (hj : j < (MessageStore.scanned us).length) :
    entry s key (p + j) = (MessageStore.scanned us)[j]? := by
  rw [MessageStore.scanned, List.length_take] at hj
  rw [entry_of_buffer hb (by omega), MessageStore.scanned, List.getElem?_take_of_lt (by omega)]

lemma points_of_scanned (h : Pullable s key) (hmin : (s.queue key).getMinOffsetInQuque ≤ p)
    (hb : getIndexBuffer (s.queue key) p = some us) :
    ∀ u ∈ MessageStore.scanned us, PointsAt s.commitLog u := by
  intro u hu
  obtain ⟨j, hj⟩ := List.getElem?_of_mem hu
  refine h.points (p + j) u (by omega) ?_
  rw [entry_of_scanned hb (List.getElem?_eq_some_iff.mp hj).1, hj]

lemma asks_of_scanned (hb : getIndexBuffer (s.queue key) p = some us)
    (hk : k ≤ (MessageStore.scanned us).length) :
    asks s key data p (p + k) =
      ((MessageStore.scanned us).take k).filterMap (asked s data) := by
  have hlen : ((MessageStore.scanned us).take k).length = k := List.length_take_of_le hk
  have hasks := @asks_of_entries s key data p ((MessageStore.scanned us).take k) fun j hj => by
    rw [hlen] at hj
    rw [entry_of_scanned hb (by omega), List.getElem?_take_of_lt hj]
  rwa [hlen] at hasks

lemma length_scanned (us : List CQUnit) : (MessageStore.scanned us).length ≤ 800 := by
  rw [MessageStore.scanned, List.length_take]
  exact min_le_left _ _

lemma length_scanned_pos (hb : getIndexBuffer (s.queue key) p = some us) :
    0 < (MessageStore.scanned us).length := by
  rw [MessageStore.scanned, List.length_take]
  exact lt_min (by decide) (length_getIndexBuffer_pos (s.whole_queue key) hb)

/-- The answer where the queue has no buffer. -/
lemma getMessage_of_none (h : Pullable s key) (hmin : (s.queue key).getMinOffsetInQuque ≤ p)
    (hlt : p < (s.queue key).getMaxOffsetInQuque) (hb : getIndexBuffer (s.queue key) p = none) :
    s.getMessage key.1 key.2 p maxMsgNums data = .ok (some {
      status := .OFFSET_FOUND_NULL
      nextBeginOffset := rollNextQueueFile (s.queue key) p
      minOffset := (s.queue key).getMinOffsetInQuque
      maxOffset := (s.queue key).getMaxOffsetInQuque }) := by
  obtain ⟨topic, queueId⟩ := key
  dsimp only
  rw [MessageStore.getMessage, h.running, h.readable]
  change (if ((s.queue (topic, queueId)).getMaxOffsetInQuque : ℤ) = 0 then _ else _) = _
  rw [if_neg (by omega), if_neg (by omega), if_neg (by omega), if_neg (by omega),
    Int.toNat_natCast, hb]

/-- The answer of the loop over a buffer. -/
lemma getMessage_of_some (h : Pullable s key) (hmin : (s.queue key).getMinOffsetInQuque ≤ p)
    (hlt : p < (s.queue key).getMaxOffsetInQuque) (hb : getIndexBuffer (s.queue key) p = some us)
    (hscan : s.scan maxMsgNums data (MessageStore.scanned us) {} = .ok (k, t')) :
    s.getMessage key.1 key.2 p maxMsgNums data = .ok (some {
      messageMapedList := t'.messageMapedList
      bufferTotalSize := t'.bufferTotalSize
      status := t'.status
      nextBeginOffset := p + k
      minOffset := (s.queue key).getMinOffsetInQuque
      maxOffset := (s.queue key).getMaxOffsetInQuque
      suggestPullingFromSlave :=
        decide (s.transfer.memory < s.commitLog.getMaxOffset - t'.maxPhyOffsetPulling) }) := by
  obtain ⟨topic, queueId⟩ := key
  dsimp only
  rw [MessageStore.getMessage, h.running, h.readable]
  change (if ((s.queue (topic, queueId)).getMaxOffsetInQuque : ℤ) = 0 then _ else _) = _
  rw [if_neg (by omega), if_neg (by omega), if_neg (by omega), if_neg (by omega),
    Int.toNat_natCast, hb]
  dsimp only
  rw [hscan]
  rfl

/-- **One pull** goes on. It answers what the entries that it goes over ask for; more, only where
one of them is misread. -/
lemma single_pull (h : Pullable s key) (hmax : 1 ≤ maxMsgNums.toInt)
    (hmin : (s.queue key).getMinOffsetInQuque ≤ p)
    (hlt : p < (s.queue key).getMaxOffsetInQuque) :
    ∃ result, s.getMessage key.1 key.2 p maxMsgNums data = .ok (some result) ∧
      ∃ next : ℕ, result.nextBeginOffset = next ∧ p < next ∧
        (result.messageMapedList.length : ℤ) ≤ maxMsgNums.toInt ∧
        ((∀ i, p ≤ i → ¬MisreadAt s key data i) →
          result.messageMapedList = asks s key data p next) := by
  cases hb : getIndexBuffer (s.queue key) p with
  | none =>
    obtain ⟨n, hnpos, -, hnext⟩ := rollNextQueueFile_eq s key p
    have hmod := Nat.mod_lt p hnpos
    refine ⟨_, getMessage_of_none h hmin hlt hb, _, hnext, by omega, ?_, fun _ => ?_⟩
    · change (0 : ℤ) ≤ _
      omega
    · exact (asks_of_none fun i hpi hi =>
        entry_of_rolled h hmin hb hpi (by rw [hnext]; exact_mod_cast hi)).symm
  | some us =>
    have hpoints := points_of_scanned h hmin hb
    have hlen := length_scanned us
    obtain ⟨⟨k, t'⟩, hscan⟩ := @scan_ok s data maxMsgNums (MessageStore.scanned us) {} hpoints
    obtain ⟨hk, hcount, ms, hms, -, heq⟩ := scan_asks h hpoints (going_start hmax)
      (show 0 + _ < _ by omega) hscan
    refine ⟨_, getMessage_of_some h hmin hlt hb hscan, p + k, rfl, ?_, hcount, fun hgood => ?_⟩
    · obtain ⟨u, rest, hcons⟩ := List.exists_cons_of_length_pos (length_scanned_pos hb)
      rw [hcons] at hscan
      obtain ⟨k', -, rfl, -⟩ := scan_first hscan
      omega
    · rw [asks_of_scanned hb hk]
      refine Eq.trans hms (heq ?_)
      rintro u hu ⟨hmatch, hmis⟩
      obtain ⟨j, hj⟩ := List.getElem?_of_mem hu
      have hjk := (List.getElem?_eq_some_iff.mp hj).1
      rw [List.length_take] at hjk
      rw [List.getElem?_take_of_lt (by omega), ← entry_of_scanned hb (by omega)] at hj
      exact hgood (p + j) (by omega) ⟨u, hj, hmatch, hmis⟩

/-- Up to the end of the queue, or beyond it. -/
lemma asks_to_max {next : ℕ} (hlt : p < (s.queue key).getMaxOffsetInQuque) (hgo : p < next) :
    asks s key data p (s.queue key).getMaxOffsetInQuque =
      asks s key data p next ++ asks s key data next (s.queue key).getMaxOffsetInQuque := by
  rcases Nat.le_total next (s.queue key).getMaxOffsetInQuque with hle | hle
  · exact asks_append hgo.le hle
  · have hbeyond : asks s key data (s.queue key).getMaxOffsetInQuque next = [] :=
      asks_of_none fun i hi _ => Option.eq_none_iff_forall_ne_some.mpr fun u hu =>
        absurd (lt_max_of_entry hu) (by omega)
    have hnone : asks s key data next (s.queue key).getMaxOffsetInQuque = [] := by
      rw [asks, Nat.sub_eq_zero_of_le hle]
      rfl
    rw [asks_append hlt.le hle, hbeyond, hnone, List.append_nil, List.append_nil]

section Good

variable (h : Pullable s key) (hmax : 1 ≤ maxMsgNums.toInt)
  (hmin : (s.queue key).getMinOffsetInQuque ≤ start)
  (hgood : ∀ i, start ≤ i → ¬MisreadAt s key data i)

include h hmax hmin hgood

/-- **Pulls that follow each other**, as far as they get. -/
lemma follow_asks {ms : List SelectMapedBufferResult} (hp : start ≤ p)
    (hfollow : Follow s key data maxMsgNums p ms o) : p ≤ o ∧ ms = asks s key data p o := by
  induction hfollow with
  | refl offset => exact ⟨le_rfl, asks_self.symm⟩
  | @pull offset next o result ms hlt hget hnext hrest ih =>
    obtain ⟨result', hget', next', hnext', hgo, -, heq⟩ :=
      single_pull h hmax (hmin.trans hp) hlt
    rw [hget, Except.ok.injEq, Option.some.injEq] at hget'
    subst hget'
    obtain rfl : next = next' := by
      rw [hnext] at hnext'
      exact_mod_cast hnext'
    obtain ⟨hle, hms⟩ := ih (hp.trans hgo.le)
    refine ⟨hgo.le.trans hle, ?_⟩
    rw [heq fun i hi => hgood i (hp.trans hi), hms, ← asks_append hgo.le hle]

/-- They get to the end of the queue. -/
lemma follow_to_max (hp : start ≤ p) : ∃ o, (s.queue key).getMaxOffsetInQuque ≤ o ∧
    Follow s key data maxMsgNums p (asks s key data p (s.queue key).getMaxOffsetInQuque) o := by
  induction hn : (s.queue key).getMaxOffsetInQuque - p using Nat.strong_induction_on
    generalizing p with
  | _ n ih =>
    rcases Nat.lt_or_ge p (s.queue key).getMaxOffsetInQuque with hlt | hle
    · obtain ⟨result, hget, next, hnext, hgo, -, heq⟩ :=
        single_pull h hmax (hmin.trans hp) hlt
      obtain ⟨o, hmaxo, hfollow⟩ := ih _ (by omega) (hp.trans hgo.le) rfl
      refine ⟨o, hmaxo, ?_⟩
      rw [asks_to_max hlt hgo, ← heq fun i hi => hgood i (hp.trans hi)]
      exact .pull hlt hget hnext hfollow
    · refine ⟨p, hle, ?_⟩
      rw [asks, Nat.sub_eq_zero_of_le hle]
      exact .refl p

end Good

/-- A loop that begins with a misread entry answers a message too many. -/
lemma misread_longer {u : CQUnit} (h : Pullable s key)
    (hpoints : ∀ v ∈ u :: us, PointsAt s.commitLog v) (hmax : 1 ≤ maxMsgNums.toInt)
    (hcount : us.length < 2 ^ 31 - 2) (hmatch : isMessageMatched data u.tagsCode)
    (hmis : Misread s.commitLog u)
    (hscan : s.scan maxMsgNums data (u :: us) {} = .ok (k, t')) :
    (((u :: us).take k).filterMap (asked s data)).length < t'.messageMapedList.length := by
  have hu := hpoints u List.mem_cons_self
  have hnone : recordAt s.commitLog u = none :=
    recordAt_eq_none fun f hf hs => hmis.not_le s.chained hf hs.2.1
  obtain ⟨k', t₁, rfl, hturn, hrest⟩ := scan_first hscan
  obtain ⟨hg₁, ms₁, hms₁, hlen₁, -, -⟩ := turn_asks h hu (going_start hmax) (by decide) hturn
  have hone : t₁.messageMapedList.length = 1 := by
    cases hturn with
    | passed hover => exact absurd hover (by simp [MessageStore.passesOver])
    | added r hroom hmatch' hread => rfl
    | removing hroom hmatch' hread =>
      rcases selectMessage_cases s.chained hu with ⟨r, -, hsel⟩ | ⟨-, hnot, -⟩ | ⟨-, -, r, hsel⟩
      · rw [MessageStore.read, hsel] at hread
        exact absurd hread (by simp)
      · exact absurd hmis hnot
      · rw [MessageStore.read, hsel] at hread
        exact absurd hread (by simp)
    | notMatched hroom hmatch' => exact absurd hmatch hmatch'
  obtain ⟨-, -, ms, hms, hsub, -⟩ :=
    scan_asks h (fun v hv => hpoints v (List.mem_cons_of_mem _ hv)) hg₁ (by omega) hrest
  have hle := hsub.length_le
  rw [List.take_succ_cons, List.filterMap_cons, asked, if_pos hmatch, hnone, hms,
    List.length_append, hone]
  change (List.filterMap (asked s data) (List.take k' us)).length < _
  omega

/-- **Pulls.** From a number on, pulls answer what is asked for, each message exactly once and in
the order of the queue, if and only if no entry from there on is misread. -/
theorem pulls_iff (h : Pullable s key) (hmax : 1 ≤ maxMsgNums.toInt)
    (hmin : (s.queue key).getMinOffsetInQuque ≤ start) :
    (∀ offset, start ≤ offset → offset < (s.queue key).getMaxOffsetInQuque →
      Pulls s key data maxMsgNums offset) ↔ ∀ i, start ≤ i → ¬MisreadAt s key data i := by
  constructor
  · rintro hpulls i hi ⟨u, hentry, hmatch, hmis⟩
    have hlt := lt_max_of_entry hentry
    obtain ⟨result, hget, next, hnext, -, -, hasks⟩ := (hpulls i hi hlt).single
    obtain ⟨f, hf, havailable, hle, hwrote⟩ := file_of_entry hentry
    obtain ⟨us, hb⟩ := getIndexBuffer_isSome (s.whole_queue key) h.dvd_min (hmin.trans hi) hf
      havailable hle hwrote
    have hpoints := points_of_scanned h (hmin.trans hi) hb
    have hlen := length_scanned us
    obtain ⟨⟨k, t'⟩, hscan⟩ := @scan_ok s data maxMsgNums (MessageStore.scanned us) {} hpoints
    rw [getMessage_of_some h (hmin.trans hi) hlt hb hscan] at hget
    obtain rfl := Option.some.inj (Except.ok.inj hget)
    obtain rfl : i + k = next := by
      change (i : ℤ) + k = next at hnext
      omega
    obtain ⟨hk, -⟩ := scan_asks h hpoints (going_start hmax) (show 0 + _ < _ by omega) hscan
    rw [asks_of_scanned hb hk] at hasks
    -- the misread entry is the first one
    have hfirst : (MessageStore.scanned us)[0]? = some u := by
      rw [← entry_of_scanned hb (length_scanned_pos hb), Nat.add_zero, hentry]
    cases hscanned : MessageStore.scanned us with
    | nil => simp [hscanned] at hfirst
    | cons v vs =>
      rw [hscanned] at hfirst hpoints hscan hlen hasks
      obtain rfl := Option.some.inj hfirst
      have hlonger := misread_longer h hpoints hmax (by rw [List.length_cons] at hlen; omega)
        hmatch hmis hscan
      exact absurd (congrArg List.length hasks) (by dsimp only; omega)
  · intro hgood offset hstart hlt
    obtain ⟨result, hget, next, hnext, hgo, hcount, heq⟩ :=
      single_pull h hmax (hmin.trans hstart) hlt
    exact {
      single := ⟨result, hget, next, hnext, hgo, hcount, heq fun i hi => hgood i (hstart.trans hi)⟩
      follow := fun ms o hfollow => (follow_asks h hmax hmin hgood hstart hfollow).2
      all := follow_to_max h hmax hmin hgood hstart }

end Pulling

/-! ### A log whose first file goes -/

section Removed

lemma pos_20 : 0 < 20 := by decide

lemma pos_60 : 0 < 60 := by decide

def entries : List CQUnit := [⟨0, 4, 0⟩, ⟨20, 4, 0⟩, ⟨24, 4, 0⟩]

/-- A queue of three entries, of messages in two files of the log. -/
def threeEntries : ConsumeQueue where
  mapedFileQueue := ⟨60, pos_60, [{
    fileFromOffset := 0
    mappedByteBuffer := entries
    wrotePostion := 60 }], 0, 0⟩

lemma whole_threeEntries : WholeQueue threeEntries where
  chained := ⟨List.isChain_singleton _, by decide, by decide⟩
  dvd := by decide
  mapped := by decide
  wrote := by decide

def logFile (fileFromOffset wrotePostion : ℕ) (available : Bool) : MapedFile Bytes where
  fileFromOffset := fileFromOffset
  mappedByteBuffer := List.replicate 20 0
  wrotePostion := wrotePostion
  available := available

def logOf (files : List (MapedFile Bytes)) : MapedFileQueue Bytes := ⟨20, pos_20, files, 0, 0⟩

def removingLog : MapedFileQueue Bytes := logOf [logFile 0 20 false, logFile 20 8 true]

def removedLog : MapedFileQueue Bytes := logOf [logFile 20 8 true]

lemma chained_removingLog : Chained removingLog :=
  ⟨List.isChain_pair.mpr ⟨rfl, rfl⟩, by decide, by decide⟩

lemma chained_removedLog : Chained removedLog := ⟨List.isChain_singleton _, by decide, by decide⟩

lemma mapped_removingLog : Mapped removingLog := by
  intro f hf
  rcases List.mem_pair.mp hf with rfl | rfl
  · rfl
  · rfl

lemma mapped_removedLog : Mapped removedLog := by
  intro f hf
  rw [List.mem_singleton.mp hf]
  rfl

def testConfig : QueueConfig := ⟨60, pos_60⟩

def table : ConsumeQueueTable := fun key => if key = (['t'], 0) then some threeEntries else none

lemma whole_table (key : Text × Int32) (cq : ConsumeQueue) (h : table key = some cq) :
    WholeQueue cq := by
  unfold table at h
  split at h
  · rw [← Option.some.inj h]
    exact whole_threeEntries
  · exact absurd h (by simp)

/-- The first file is being deleted. -/
def removingStore : MessageStore where
  transfer := { memory := 1000 }
  queueConfig := testConfig
  consumeQueueTable := table
  commitLog := removingLog
  whole := whole_table
  chained := chained_removingLog
  mapped := mapped_removingLog

/-- The first file is deleted. -/
def removedStore : MessageStore where
  transfer := { memory := 1000 }
  queueConfig := testConfig
  consumeQueueTable := table
  commitLog := removedLog
  whole := whole_table
  chained := chained_removedLog
  mapped := mapped_removedLog

lemma mem_entries {s : MessageStore} (hs : s.queue (['t'], 0) = threeEntries) {i : ℕ} {u : CQUnit}
    (hu : entry s (['t'], 0) i = some u) : u ∈ entries := by
  have hlt := lt_max_of_entry hu
  rw [entry, hs] at hu
  rw [hs] at hlt
  change i < 3 at hlt
  interval_cases i
  · exact Option.some.inj hu ▸ by decide
  · exact Option.some.inj hu ▸ by decide
  · exact Option.some.inj hu ▸ by decide

lemma pointsAt_entries {log : MapedFileQueue Bytes} (hsize : log.mapedFileSize = 20)
    (hmax : log.getMaxOffset = 28) : ∀ u ∈ entries, PointsAt log u := by
  intro u hu
  have hall : ∀ u ∈ entries, 0 ≤ u.offset.toInt ∧ 0 < u.size.toInt ∧
      u.offset.toInt.toNat % 20 + u.size.toInt.toNat ≤ 20 ∧
      u.offset.toInt + u.size.toInt ≤ (28 : ℕ) := by decide
  obtain ⟨h1, h2, h3, h4⟩ := hall u hu
  exact ⟨h1, h2, by rw [hsize]; exact h3, by rw [hmax]; exact h4⟩

lemma pullable_removingStore : Pullable removingStore (['t'], 0) where
  running := rfl
  readable := rfl
  dvd_min := by decide
  points _ u _ hu := pointsAt_entries rfl rfl u (mem_entries rfl hu)
  removing := by decide

lemma pullable_removedStore : Pullable removedStore (['t'], 0) where
  running := rfl
  readable := rfl
  dvd_min := by decide
  points _ u _ hu := pointsAt_entries rfl rfl u (mem_entries rfl hu)
  removing := by decide

/-- `pulls_iff`, while the first file is being deleted. -/
theorem pulls_removing : Pulls removingStore (['t'], 0) none 2 0 :=
  (pulls_iff pullable_removingStore (by decide) (Nat.zero_le _)).mpr
    (by
      rintro i - ⟨u, -, -, -, first, hfirst, hne, -⟩
      exact hne (Option.some.inj hfirst ▸ rfl))
    0 le_rfl (by decide)

/-- When the first file is deleted, the message behind it is answered twice. -/
theorem removed_misread : Pullable removedStore (['t'], 0) ∧
    ¬Pulls removedStore (['t'], 0) none 32 0 := by
  refine ⟨pullable_removedStore, fun hpulls => ?_⟩
  obtain ⟨result, hget, next, hnext, -, -, hasks⟩ := hpulls.single
  have hresult : (removedStore.getMessage ['t'] 0 0 32 none).map (fun r => r.map fun r =>
      (r.messageMapedList.map (·.startOffset), r.nextBeginOffset)) =
        .ok (some ([20, 20, 24], 3)) := rfl
  change removedStore.getMessage ['t'] 0 0 32 none = _ at hget
  rw [hget] at hresult
  obtain ⟨hmessages, hthree⟩ := Prod.mk.inj (Option.some.inj (Except.ok.inj hresult))
  obtain rfl : next = 3 := by
    rw [hthree] at hnext
    exact_mod_cast hnext.symm
  rw [hasks] at hmessages
  exact absurd (congrArg List.length hmessages) (by decide)

end Removed

end CloudMQ.PullScan
