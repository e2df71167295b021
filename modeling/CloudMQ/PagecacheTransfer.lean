import CloudMQ.Buffer

/-!
The answer to a pull request, written to the socket from the page cache.

The header and the messages stand in buffers of their own, and what has been written of them is kept
in the positions of the buffers. A call writes from the first buffer with something remaining, as
much as the channel takes; the caller goes by what the call returns, and by the declared length.
-/

namespace CloudMQ.PagecacheTransfer

open CloudMQ.Buffer

/-- A buffer with its position, and its bytes up to the limit. -/
structure ByteBuffer where
  content : Bytes
  position : ℕ
  position_le : position ≤ content.length
  limit_lt : content.length < 2 ^ 31

namespace ByteBuffer

def limit (bb : ByteBuffer) : ℕ := bb.content.length

def hasRemaining (bb : ByteBuffer) : Bool := bb.position < bb.limit

/-- The bytes between the position and the limit. -/
def remaining (bb : ByteBuffer) : Bytes := bb.content.drop bb.position

lemma length_remaining (bb : ByteBuffer) : bb.remaining.length = bb.limit - bb.position := by
  simp [remaining, limit]

lemma advance_le (bb : ByteBuffer) (k : ℕ) :
    bb.position + min k bb.remaining.length ≤ bb.content.length := by
  have h := bb.position_le
  rw [length_remaining, limit]
  omega

/-- The buffer after so many bytes more, or all that remain. -/
def advance (k : ℕ) (bb : ByteBuffer) : ByteBuffer :=
  { bb with
    position := bb.position + min k bb.remaining.length
    position_le := bb.advance_le k }

@[simp] lemma limit_advance (k : ℕ) (bb : ByteBuffer) : (bb.advance k).limit = bb.limit := rfl

lemma remaining_advance (k : ℕ) (bb : ByteBuffer) :
    (bb.advance k).remaining = bb.remaining.drop k := by
  have h : min k bb.remaining.length = bb.remaining.length ∨ min k bb.remaining.length = k := by
    omega
  rw [remaining, advance]
  simp only
  rw [← List.drop_drop, ← remaining]
  rcases h with h | h
  · have hk : bb.remaining.length ≤ k := by omega
    rw [h, List.drop_length, List.drop_eq_nil_of_le hk]
  · rw [h]

lemma hasRemaining_iff (bb : ByteBuffer) : bb.hasRemaining = true ↔ bb.remaining ≠ [] := by
  rw [hasRemaining, decide_eq_true_iff, ← List.length_pos_iff, length_remaining]
  omega

end ByteBuffer

/-- A message in the page cache. The position starts from `0`, and the size is the limit. -/
structure SelectMapedBufferResult where
  byteBuffer : ByteBuffer
  size : Int32
  position_eq : byteBuffer.position = 0
  size_eq : size.toInt = byteBuffer.limit

structure GetMessageResult where
  messageBufferList : List ByteBuffer := []
  bufferTotalSize : Int32 := 0

def addMessage (t : GetMessageResult) (mapedBuffer : SelectMapedBufferResult) :
    GetMessageResult where
  messageBufferList := t.messageBufferList ++ [mapedBuffer.byteBuffer]
  bufferTotalSize := t.bufferTotalSize + mapedBuffer.size

/-- The result to which the messages were added, one after the other. -/
def addMessages (messages : List SelectMapedBufferResult) : GetMessageResult :=
  messages.foldl addMessage {}

structure ManyMessageTransfer where
  byteBufferHeader : ByteBuffer
  getMessageResult : GetMessageResult
  transfered : ℕ := 0

namespace ManyMessageTransfer

/-- The sum is one of `int`s. -/
def count (t : ManyMessageTransfer) : ℤ :=
  (Int32.ofNat t.byteBufferHeader.limit + t.getMessageResult.bufferTotalSize).toInt

/-- The sum of the positions, again of `int`s. -/
def position (t : ManyMessageTransfer) : ℤ :=
  (t.getMessageResult.messageBufferList.foldl (fun pos bb => pos + Int32.ofNat bb.position)
    (Int32.ofNat t.byteBufferHeader.position)).toInt

/-- What a call returns, what it writes to the channel, and the buffers after it. -/
structure Call where
  returned : ℕ
  written : Bytes
  next : ManyMessageTransfer

/-- Writes from the first buffer with something remaining. -/
def writeFirst (take : ℕ) : List ByteBuffer → Option (Bytes × List ByteBuffer)
  | [] => none
  | bb :: rest =>
    if bb.hasRemaining then some (bb.remaining.take take, bb.advance take :: rest)
    else (writeFirst take rest).map fun r => (r.1, bb :: r.2)

/-- `transferTo`, when the channel takes at most so many bytes. -/
def transferTo (take : ℕ) (t : ManyMessageTransfer) : Call :=
  if t.byteBufferHeader.hasRemaining then
    let written := t.byteBufferHeader.remaining.take take
    let transfered := t.transfered + written.length
    ⟨transfered, written,
      { t with byteBufferHeader := t.byteBufferHeader.advance take, transfered }⟩
  else match writeFirst take t.getMessageResult.messageBufferList with
    | some (written, messageBufferList) =>
      let transfered := t.transfered + written.length
      ⟨transfered, written,
        { t with
          getMessageResult := { t.getMessageResult with messageBufferList }
          transfered }⟩
    | none => ⟨0, [], t⟩

/-- The buffers after calls in which the channel takes so much. -/
def after (t : ManyMessageTransfer) (takes : List ℕ) : ManyMessageTransfer :=
  takes.foldl (fun t take => (t.transferTo take).next) t

/-- What these calls write. -/
def sent : ManyMessageTransfer → List ℕ → Bytes
  | _, [] => []
  | t, take :: takes => (t.transferTo take).written ++ sent (t.transferTo take).next takes

/-! ### One call -/

/-- What remains of the buffers. -/
def remaining (t : ManyMessageTransfer) : Bytes :=
  t.byteBufferHeader.remaining ++
    t.getMessageResult.messageBufferList.flatMap ByteBuffer.remaining

lemma writeFirst_eq_none {take : ℕ} {l : List ByteBuffer} (h : writeFirst take l = none) :
    l.flatMap ByteBuffer.remaining = [] := by
  induction l with
  | nil => rfl
  | cons bb l ih =>
    rw [writeFirst] at h
    split at h
    case isTrue => cases h
    case isFalse hbb =>
      rw [ByteBuffer.hasRemaining_iff, not_not] at hbb
      rw [List.flatMap_cons, hbb, ih (by simpa using h), List.append_nil]

/-- A write takes from the front of what remains. -/
lemma writeFirst_eq_some {take : ℕ} {l l' : List ByteBuffer} {written : Bytes}
    (h : writeFirst take l = some (written, l')) :
    l.flatMap ByteBuffer.remaining = written ++ l'.flatMap ByteBuffer.remaining ∧
      l.flatMap ByteBuffer.remaining ≠ [] ∧ l'.map ByteBuffer.limit = l.map ByteBuffer.limit := by
  induction l generalizing l' with
  | nil => cases h
  | cons bb l ih =>
    rw [writeFirst] at h
    split at h
    case isTrue hbb =>
      rw [ByteBuffer.hasRemaining_iff] at hbb
      simp only [Option.some.injEq, Prod.mk.injEq] at h
      obtain ⟨rfl, rfl⟩ := h
      rw [List.flatMap_cons, List.flatMap_cons, ByteBuffer.remaining_advance, ← List.append_assoc,
        List.take_append_drop]
      exact ⟨rfl, fun h => hbb (List.append_eq_nil_iff.mp h).1, rfl⟩
    case isFalse hbb =>
      rw [ByteBuffer.hasRemaining_iff, not_not] at hbb
      rw [Option.map_eq_some_iff] at h
      obtain ⟨⟨w, r⟩, hr, heq⟩ := h
      simp only [Prod.mk.injEq] at heq
      obtain ⟨rfl, rfl⟩ := heq
      rw [List.flatMap_cons, List.flatMap_cons, hbb, List.nil_append, List.nil_append,
        List.map_cons, List.map_cons, List.cons.injEq]
      obtain ⟨happ, hne, hlim⟩ := ih hr
      exact ⟨happ, hne, rfl, hlim⟩

/-- The limits of the buffers. -/
def limits (t : ManyMessageTransfer) : List ℕ :=
  t.byteBufferHeader.limit :: t.getMessageResult.messageBufferList.map ByteBuffer.limit

/-- What a call does: it takes from the front of what remains, and returns the total so far; when
nothing remains it does nothing and returns `0`. -/
lemma transferTo_spec (take : ℕ) (t : ManyMessageTransfer) :
    t.remaining = (t.transferTo take).written ++ (t.transferTo take).next.remaining ∧
    (t.transferTo take).next.transfered = t.transfered + (t.transferTo take).written.length ∧
    (t.transferTo take).next.count = t.count ∧
    (t.transferTo take).next.limits = t.limits ∧
    (t.transferTo take).returned =
      if t.remaining = [] then 0 else t.transfered + (t.transferTo take).written.length := by
  rw [transferTo]
  split
  case isTrue hbb =>
    rw [ByteBuffer.hasRemaining_iff] at hbb
    have hne : t.remaining ≠ [] := fun h => hbb (List.append_eq_nil_iff.mp h).1
    refine ⟨?_, rfl, rfl, rfl, by rw [if_neg hne]⟩
    simp only [remaining, ByteBuffer.remaining_advance]
    rw [← List.append_assoc, List.take_append_drop]
  case isFalse hbb =>
    rw [ByteBuffer.hasRemaining_iff, not_not] at hbb
    split
    case h_1 written messageBufferList hw =>
      obtain ⟨happ, hne, hlim⟩ := writeFirst_eq_some hw
      refine ⟨by simp only [remaining, hbb, List.nil_append, happ], rfl, rfl, ?_, ?_⟩
      · simp only [limits, hlim]
      · rw [if_neg (by simpa [remaining, hbb] using hne)]
    case h_2 hw =>
      refine ⟨rfl, rfl, rfl, rfl, ?_⟩
      rw [if_pos (by simp only [remaining, hbb, writeFirst_eq_none hw, List.append_nil])]

lemma take_ne_nil {take : ℕ} (htake : 0 < take) {bb : ByteBuffer} (h : bb.hasRemaining = true) :
    bb.remaining.take take ≠ [] := by
  rw [ByteBuffer.hasRemaining_iff] at h
  rw [ne_eq, List.take_eq_nil_iff]
  rintro (h0 | h0)
  · omega
  · exact h h0

lemma writeFirst_ne_nil {take : ℕ} (htake : 0 < take) {l l' : List ByteBuffer} {written : Bytes}
    (h : writeFirst take l = some (written, l')) : written ≠ [] := by
  induction l generalizing l' with
  | nil => cases h
  | cons bb l ih =>
    rw [writeFirst] at h
    split at h
    case isTrue hbb =>
      simp only [Option.some.injEq, Prod.mk.injEq] at h
      exact h.1 ▸ take_ne_nil htake hbb
    case isFalse =>
      obtain ⟨⟨w, r⟩, hr, heq⟩ := Option.map_eq_some_iff.mp h
      simp only [Prod.mk.injEq] at heq
      obtain ⟨rfl, -⟩ := heq
      exact ih hr

/-- When the channel takes something, a call with something remaining writes. -/
lemma written_ne_nil {take : ℕ} (htake : 0 < take) {t : ManyMessageTransfer}
    (h : t.remaining ≠ []) : (t.transferTo take).written ≠ [] := by
  rw [transferTo]
  split
  case isTrue hbb => exact take_ne_nil htake hbb
  case isFalse hbb =>
    rw [ByteBuffer.hasRemaining_iff, not_not] at hbb
    split
    case h_1 hw => exact writeFirst_ne_nil htake hw
    case h_2 hw =>
      exact absurd (by simp only [remaining, hbb, writeFirst_eq_none hw, List.append_nil]) h

/-! ### Any number of calls -/

variable (t : ManyMessageTransfer) (takes : List ℕ)

lemma count_after : (t.after takes).count = t.count := by
  induction takes generalizing t with
  | nil => rfl
  | cons take takes ih => exact (ih _).trans (transferTo_spec take t).2.2.1

lemma limits_after : (t.after takes).limits = t.limits := by
  induction takes generalizing t with
  | nil => rfl
  | cons take takes ih => exact (ih _).trans (transferTo_spec take t).2.2.2.1

/-- The calls write the bytes of the buffers in order, and those after them remain. -/
lemma sent_append_remaining : t.sent takes ++ (t.after takes).remaining = t.remaining := by
  induction takes generalizing t with
  | nil => rfl
  | cons take takes ih =>
    rw [sent, List.append_assoc, (transferTo_spec take t).1]
    exact congrArg _ (ih _)

lemma transfered_after :
    (t.after takes).transfered = t.transfered + (t.sent takes).length := by
  induction takes generalizing t with
  | nil => rfl
  | cons take takes ih =>
    rw [sent, List.length_append, ← Nat.add_assoc, ← (transferTo_spec take t).2.1]
    exact ih _

/-- Enough calls write everything. -/
lemma exists_remaining_eq_nil : ∃ takes : List ℕ, (t.after takes).remaining = [] := by
  induction hn : t.remaining.length using Nat.strong_induction_on generalizing t with
  | h n ih =>
    by_cases h : t.remaining = []
    · exact ⟨[], h⟩
    · have happ := congrArg List.length (transferTo_spec 1 t).1
      have hne := List.length_pos_iff.mpr (written_ne_nil Nat.one_pos h)
      rw [List.length_append] at happ
      obtain ⟨takes, htakes⟩ := ih _ (by omega) (t.transferTo 1).next rfl
      exact ⟨1 :: takes, htakes⟩

lemma position_eq : t.position =
    (Int32.ofNat (t.limits.sum - t.remaining.length)).toInt := by
  have hfold (l : List ByteBuffer) (n : ℕ) :
      l.foldl (fun pos bb => pos + Int32.ofNat bb.position) (Int32.ofNat n) =
        Int32.ofNat (n + (l.map ByteBuffer.limit).sum -
          (l.flatMap ByteBuffer.remaining).length) ∧
        (l.flatMap ByteBuffer.remaining).length ≤ (l.map ByteBuffer.limit).sum := by
    induction l generalizing n with
    | nil => simp
    | cons bb l ih =>
      obtain ⟨hih, hle⟩ := ih (n + bb.position)
      have hbb : bb.position ≤ bb.limit := bb.position_le
      rw [List.foldl_cons, ← Int32.ofNat_add, hih, List.map_cons, List.sum_cons,
        List.flatMap_cons, List.length_append, ByteBuffer.length_remaining]
      constructor
      · congr 1
        omega
      · omega
  obtain ⟨heq, hle⟩ := hfold t.getMessageResult.messageBufferList t.byteBufferHeader.position
  have hpos : t.byteBufferHeader.position ≤ t.byteBufferHeader.limit :=
    t.byteBufferHeader.position_le
  rw [position, heq, limits, remaining, List.sum_cons, List.length_append,
    ByteBuffer.length_remaining]
  congr 2
  omega

end ManyMessageTransfer

/-! ### An answer -/

open ManyMessageTransfer

/-- The answer to a pull request that found these messages. -/
def answer (header : ByteBuffer) (messages : List SelectMapedBufferResult) :
    ManyMessageTransfer where
  byteBufferHeader := header
  getMessageResult := addMessages messages

/-- The header, followed by the messages in order. -/
def everything (header : ByteBuffer) (messages : List SelectMapedBufferResult) : Bytes :=
  header.remaining ++ messages.flatMap (·.byteBuffer.content)

/-- The header is at its begin, and an `int` counts the bytes. -/
def Declared (header : ByteBuffer) (messages : List SelectMapedBufferResult) : Prop :=
  header.position = 0 ∧
    header.limit + (messages.flatMap (·.byteBuffer.content)).length < 2 ^ 31

variable {header : ByteBuffer} {messages : List SelectMapedBufferResult}

lemma messageBufferList_foldl (g : GetMessageResult) :
    (messages.foldl addMessage g).messageBufferList =
      g.messageBufferList ++ messages.map (·.byteBuffer) := by
  induction messages generalizing g with
  | nil => simp
  | cons m messages ih => simp [ih, addMessage]

lemma bufferTotalSize_foldl (g : GetMessageResult) :
    (messages.foldl addMessage g).bufferTotalSize =
      g.bufferTotalSize + Int32.ofNat (messages.flatMap (·.byteBuffer.content)).length := by
  induction messages generalizing g with
  | nil => simp
  | cons m messages ih =>
    have hsize : m.size = Int32.ofNat m.byteBuffer.content.length := by
      rw [← Int32.toInt_inj, m.size_eq, Int32.toInt_ofNat_of_lt m.byteBuffer.limit_lt]
      rfl
    rw [List.foldl_cons, ih, List.flatMap_cons, List.length_append, Int32.ofNat_add, addMessage,
      hsize, Int32.add_assoc]

lemma remaining_answer : (answer header messages).remaining = everything header messages := by
  have h : (messages.map (·.byteBuffer)).flatMap ByteBuffer.remaining =
      messages.flatMap (·.byteBuffer.content) := by
    rw [List.flatMap_map]
    refine List.flatMap_congr fun m _ => ?_
    rw [ByteBuffer.remaining, m.position_eq, List.drop_zero]
  rw [remaining, everything, answer, addMessages, messageBufferList_foldl, List.nil_append, h]

/-- The declared length is the length modulo the range of an `int`. -/
lemma count_answer : (answer header messages).count =
    (Int32.ofNat (header.limit + (messages.flatMap (·.byteBuffer.content)).length)).toInt := by
  rw [count, answer, addMessages, bufferTotalSize_foldl, Int32.ofNat_add]
  congr 2
  exact Int32.zero_add _

/-- The declared length is that of the bytes to write exactly when the answer can be declared. -/
theorem count_eq_iff :
    (answer header messages).count = (everything header messages).length ↔
      Declared header messages := by
  have hpos := header.position_le
  have hlim := header.limit_lt
  rw [count_answer, everything, Declared, List.length_append, ByteBuffer.length_remaining]
  generalize (messages.flatMap (·.byteBuffer.content)).length = n
  change header.position ≤ header.limit at hpos
  change header.limit < 2 ^ 31 at hlim
  rw [Int32.toInt_ofNat', Int.bmod_def, Int32.size]
  split <;> omega

/-- The total is the declared length exactly when everything was written: so it is in every run of
an answer that can be declared, and of no other. -/
theorem done_iff :
    (∀ takes : List ℕ, (((answer header messages).after takes).transfered : ℤ) =
        ((answer header messages).after takes).count ↔
      (answer header messages).sent takes = everything header messages) ↔
    Declared header messages := by
  constructor
  · intro h
    obtain ⟨takes, htakes⟩ := exists_remaining_eq_nil (answer header messages)
    have happ := sent_append_remaining (answer header messages) takes
    rw [htakes, List.append_nil, remaining_answer] at happ
    have hcount := (h takes).mpr happ
    rw [transfered_after, happ, count_after] at hcount
    rw [← count_eq_iff, ← hcount]
    simp [answer]
  · intro hdecl takes
    have happ := sent_append_remaining (answer header messages) takes
    rw [remaining_answer] at happ
    rw [count_after, count_eq_iff.mpr hdecl, transfered_after, ← happ]
    simp [answer]

/-- What is asked of a call after these ones: it returns the number of bytes it writes, and from
then on what was written is a begin of everything, the total so far is its length, and it is the
declared length exactly when everything was written. -/
structure Specified (header : ByteBuffer) (messages : List SelectMapedBufferResult)
    (takes : List ℕ) (take : ℕ) : Prop where
  returned : (((answer header messages).after takes).transferTo take).returned =
    (((answer header messages).after takes).transferTo take).written.length
  begin : (answer header messages).sent (takes ++ [take]) <+: everything header messages
  transfered : ((answer header messages).after (takes ++ [take])).transfered =
    ((answer header messages).sent (takes ++ [take])).length
  done : (((answer header messages).after (takes ++ [take])).transfered : ℤ) =
      ((answer header messages).after (takes ++ [take])).count ↔
    (answer header messages).sent (takes ++ [take]) = everything header messages

/-- The call is made before anything was written, or after everything. -/
def Clear (t : ManyMessageTransfer) : Prop := t.transfered = 0 ∨ t.remaining = []

/-- A call returns what it writes exactly when it is made before or after all the others write. -/
lemma returned_iff (take : ℕ) (t : ManyMessageTransfer) :
    (t.transferTo take).returned = (t.transferTo take).written.length ↔ Clear t := by
  obtain ⟨happ, -, -, -, hret⟩ := transferTo_spec take t
  rw [hret, Clear]
  split
  case isTrue h =>
    rw [h] at happ
    rw [(List.append_eq_nil_iff.mp happ.symm).1]
    simp [h]
  case isFalse h =>
    simp only [h, or_false]
    omega

lemma specified_iff (hdecl : Declared header messages) (takes : List ℕ) (take : ℕ) :
    Specified header messages takes take ↔ Clear ((answer header messages).after takes) := by
  have happ := sent_append_remaining (answer header messages) (takes ++ [take])
  have htrans := transfered_after (answer header messages) (takes ++ [take])
  rw [remaining_answer] at happ
  rw [← returned_iff take]
  refine ⟨Specified.returned, fun h => ⟨h, ⟨_, happ⟩, ?_, done_iff.mpr hdecl _⟩⟩
  rw [htrans]
  exact Nat.zero_add _

/-- **Transfer.** In a run that can be declared, every call does what is asked of it exactly when
every call is made before anything was written, or after everything. -/
theorem transfer_iff (hdecl : Declared header messages) (takes : List ℕ) :
    (∀ (before : List ℕ) (take : ℕ) (rest : List ℕ), takes = before ++ take :: rest →
      Specified header messages before take) ↔
    ∀ (before : List ℕ) (take : ℕ) (rest : List ℕ), takes = before ++ take :: rest →
      Clear ((answer header messages).after before) := by
  refine forall_congr' fun before => forall_congr' fun take => forall_congr' fun rest => ?_
  exact imp_congr_right fun _ => specified_iff hdecl before take

/-- The position of an answer that can be declared is what was written of it. -/
theorem position_after (hdecl : Declared header messages) (takes : List ℕ) :
    ((answer header messages).after takes).position =
      ((answer header messages).after takes).transfered := by
  obtain ⟨hpos, hlt⟩ := hdecl
  have happ := congrArg List.length (sent_append_remaining (answer header messages) takes)
  have hsum : (answer header messages).limits.sum =
      header.limit + (messages.flatMap (·.byteBuffer.content)).length := by
    rw [limits, answer, addMessages, messageBufferList_foldl, List.sum_cons, List.nil_append,
      List.length_flatMap, List.map_map]
    rfl
  rw [remaining_answer, everything, List.length_append, List.length_append,
    ByteBuffer.length_remaining] at happ
  rw [position_eq, limits_after, transfered_after, hsum, Int32.toInt_ofNat_of_lt (by omega)]
  simp only [answer] at happ ⊢
  omega

/-- A header of two bytes. -/
def twoBytes : Bytes := [1, 2]

lemma twoBytes_lt : twoBytes.length < 2 ^ 31 := by decide

def twoByteHeader : ByteBuffer := ⟨twoBytes, 0, Nat.zero_le _, twoBytes_lt⟩

/-- A channel that takes nothing at first and then all. -/
theorem transfer_twoBytes : Declared twoByteHeader [] ∧
    ((∀ (before : List ℕ) (take : ℕ) (rest : List ℕ), [0, 2] = before ++ take :: rest →
      Specified twoByteHeader [] before take) ↔
    ∀ (before : List ℕ) (take : ℕ) (rest : List ℕ), [0, 2] = before ++ take :: rest →
      Clear ((answer twoByteHeader []).after before)) :=
  ⟨⟨rfl, by decide⟩, transfer_iff ⟨rfl, by decide⟩ [0, 2]⟩

/-- When the channel takes one byte at a time, the second call returns `2`. -/
theorem not_specified_one_byte :
    ¬∀ (header : ByteBuffer) (messages : List SelectMapedBufferResult) (takes : List ℕ)
      (take : ℕ), Specified header messages takes take :=
  fun h => absurd (h twoByteHeader [] [1] 1).returned (by decide)

end CloudMQ.PagecacheTransfer
