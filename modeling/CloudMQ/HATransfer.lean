import CloudMQ.Memory
import CloudMQ.Runs

/-!
The stream from the master to a slave: `WriteSocketService` builds frames and writes them piece by
piece, `HAClient.processReadEvent` reads the stream in pieces of other sizes and takes the frames
out of it again.

A frame is the offset, the size of the body and the body; a heartbeat is a frame without a body.
The store of the slave is a parameter: what it answers decides whether the connection goes on, not
what is read from it.
-/

namespace CloudMQ.HATransfer

open CloudMQ.Buffer CloudMQ.Memory CloudMQ.Runs

def HEADER_SIZE : ℕ := 8 + 4

def ReadMaxBufferSize : ℕ := 1024 * 1024 * 4

structure Frame where
  offset : Int64
  body : Bytes
  deriving DecidableEq

def Frame.header (f : Frame) : Bytes := putLong f.offset ++ putInt (Int32.ofNat f.body.length)

def Frame.bytes (f : Frame) : Bytes := f.header ++ f.body

def Frame.isData (f : Frame) : Bool := !f.body.isEmpty

/-- The stream that the frames make. -/
def stream (frames : List Frame) : Bytes := frames.flatMap Frame.bytes

/-! ### The master -/

structure MessageStoreConfig where
  haTransferBatchSize : ℕ
  mapedFileSizeCommitLog : ℕ

/-- `WriteSocketService`. Of its two buffers only what remains to be written is kept. `sent` is
all that was written to the socket, `built` are the frames so far. -/
structure WriteSocketService where
  nextTransferFromWhere : Int64 := -1
  byteBufferHeader : Bytes := []
  selectMapedBufferResult : Option Bytes := none
  lastWriteOver : Bool := true
  sent : Bytes := []
  built : List Frame := []

/-- What one turn of `run` finds: the request of the slave, the end of the log, whether it is time
for a heartbeat, how much the socket takes in each call (nothing once the list is exhausted), and
the data of the log. -/
structure Turn where
  slaveRequestOffset : Int64
  maxOffset : Int64
  heartbeat : Bool
  takes : List ℕ
  getCommitLogData : Int64 → Option Bytes

/-- The loop that writes one buffer. It gives up when the socket has taken nothing for three times.
What has been sent, what remains of the buffer, and what the socket will take after that. -/
def writeBuffer : ℕ → Bytes → Bytes → List ℕ → Bytes × Bytes × List ℕ
  | _, sent, [], takes => (sent, [], takes)
  | _, sent, buffer, [] => (sent, buffer, [])
  | writeSizeZeroTimes, sent, buffer, n :: takes =>
    if 0 < n then writeBuffer 0 (sent ++ buffer.take n) (buffer.drop n) takes
    else if 3 ≤ writeSizeZeroTimes + 1 then (sent, buffer, takes)
    else writeBuffer (writeSizeZeroTimes + 1) sent buffer takes

namespace WriteSocketService

variable (cfg : MessageStoreConfig) (w : WriteSocketService)

/-- `transferData`. The answer is whether all has been written. -/
def transferData (takes : List ℕ) : WriteSocketService × Bool × List ℕ :=
  match writeBuffer 0 w.sent w.byteBufferHeader takes with
  | (sent, header, takes) =>
    match w.selectMapedBufferResult with
    | none => ({ w with sent := sent, byteBufferHeader := header }, header.isEmpty, takes)
    | some body =>
      if header.isEmpty then
        match writeBuffer 0 sent body takes with
        | (sent, body, takes) =>
          ({ w with
              sent := sent
              byteBufferHeader := header
              selectMapedBufferResult := if body.isEmpty then none else some body },
            body.isEmpty, takes)
      else
        ({ w with
            sent := sent
            byteBufferHeader := header
            selectMapedBufferResult := if body.isEmpty then none else some body },
          false, takes)

/-- The first transfer: where it starts. A slave without data gets the last file. -/
def start (t : Turn) : WriteSocketService :=
  if w.nextTransferFromWhere = -1 then
    if t.slaveRequestOffset = 0 then
      let masterOffset := t.maxOffset - t.maxOffset % Int64.ofNat cfg.mapedFileSizeCommitLog
      { w with nextTransferFromWhere := if masterOffset < 0 then 0 else masterOffset }
    else { w with nextTransferFromWhere := t.slaveRequestOffset }
  else w

/-- The header of a heartbeat. -/
def buildHeartbeat : WriteSocketService :=
  let frame : Frame := ⟨w.nextTransferFromWhere, []⟩
  { w with byteBufferHeader := frame.header, built := w.built ++ [frame] }

/-- The header and the body of a data frame. -/
def buildData (data : Bytes) : WriteSocketService :=
  let size := min data.length cfg.haTransferBatchSize
  let frame : Frame := ⟨w.nextTransferFromWhere, data.take size⟩
  { w with
    nextTransferFromWhere := w.nextTransferFromWhere + Int64.ofNat size
    byteBufferHeader := frame.header
    selectMapedBufferResult := some frame.body
    built := w.built ++ [frame] }

/-- `lastWriteOver = transferData()` -/
def write (takes : List ℕ) : WriteSocketService × List ℕ :=
  match w.transferData takes with
  | (w, result, takes) => ({ w with lastWriteOver := result }, takes)

/-- The second half of a turn: new data, when there is any and the last write is over. -/
def transfer (t : Turn) (takes : List ℕ) : WriteSocketService :=
  if w.lastWriteOver then
    match t.getCommitLogData w.nextTransferFromWhere with
    | none => w
    | some data => ((w.buildData cfg data).write takes).1
  else w

/-- One turn of `run`. -/
def run (t : Turn) : WriteSocketService :=
  if t.slaveRequestOffset = -1 then w
  else
    let w := w.start cfg t
    if w.lastWriteOver then
      if t.heartbeat then
        match w.buildHeartbeat.write t.takes with
        | (w, takes) => w.transfer cfg t takes
      else w.transfer cfg t t.takes
    else
      match w.write t.takes with
      | (w, takes) => w.transfer cfg t takes

end WriteSocketService

/-! ### The slave -/

/-- What the slave needs of its store. `ω` is what an append leaves to the operating system. -/
structure MessageStore (σ ω : Type) where
  getMaxPhyOffset : σ → Int64
  appendToCommitLog : ω → Int64 → Bytes → σ → σ

/-- Where the thread of the client is: about to read, inside `dispatchReadRequest`, or done with
the connection. -/
inductive Phase | reading | dispatching | closed
  deriving DecidableEq

/-- `HAClient`. `taken` counts the bytes that have been read from the socket, `handed` is what
`appendToCommitLog` was called with. -/
structure HAClient where
  byteBufferRead : Cells
  byteBufferBackup : Cells
  position : ℕ := 0
  dispatchPosition : ℕ := 0
  phase : Phase := .reading
  taken : ℕ := 0
  handed : List Frame := []

namespace HAClient

variable {σ ω : Type} (store : MessageStore σ ω) (c : HAClient)

/-- The next `n` bytes of the socket. -/
def read (sent : Bytes) (n : ℕ) : HAClient :=
  { c with
    byteBufferRead := Memory.write c.byteBufferRead c.position ((sent.drop c.taken).take n)
    position := c.position + n
    taken := c.taken + n
    phase := .dispatching }

/-- `reallocateByteBuffer`, with the swap of the two buffers. -/
def reallocateByteBuffer : HAClient :=
  let remain := ReadMaxBufferSize - c.dispatchPosition
  { c with
    byteBufferRead :=
      if 0 < remain then
        Memory.write c.byteBufferBackup 0 (slice c.byteBufferRead c.dispatchPosition remain)
      else c.byteBufferBackup
    byteBufferBackup := c.byteBufferRead
    position := remain
    dispatchPosition := 0 }

/-- The end of `dispatchReadRequest`: a full buffer is made room in. -/
def finish : HAClient :=
  if c.position < ReadMaxBufferSize then { c with phase := .reading }
  else { c.reallocateByteBuffer with phase := .reading }

/-- One turn of the loop in `dispatchReadRequest`. An array of negative length is an exception,
which ends the call and leaves everything as it is. `reported` is whether the slave can report. -/
def dispatchReadRequest (env : ω) (reported : Bool) (s : σ) : HAClient × σ :=
  let diff := c.position - c.dispatchPosition
  if HEADER_SIZE ≤ diff then
    let masterPhyOffset := getLongAt c.byteBufferRead c.dispatchPosition
    let bodySize := getIntAt c.byteBufferRead (c.dispatchPosition + 8)
    let slavePhyOffset := store.getMaxPhyOffset s
    if slavePhyOffset ≠ 0 ∧ slavePhyOffset ≠ masterPhyOffset then ({ c with phase := .closed }, s)
    else if (Int32.ofNat HEADER_SIZE + bodySize).toInt ≤ diff then
      if bodySize < 0 then ({ c with phase := .reading }, s)
      else
        let n := bodySize.toInt.toNat
        let bodyData := slice c.byteBufferRead (c.dispatchPosition + HEADER_SIZE) n
        ({ c with
            dispatchPosition := c.dispatchPosition + HEADER_SIZE + n
            phase := if reported then .dispatching else .closed
            handed := c.handed ++ [⟨masterPhyOffset, bodyData⟩] },
          store.appendToCommitLog env masterPhyOffset bodyData s)
    else (c.finish, s)
  else (c.finish, s)

end HAClient

/-! ### The connection -/

/-- A connection and the store of the slave. -/
structure Link (σ : Type) where
  master : WriteSocketService
  client : HAClient
  store : σ

inductive Action (ω : Type)
  /-- a turn of the master -/
  | run (t : Turn)
  /-- the client reads from the socket -/
  | read (n : ℕ)
  /-- a turn of `dispatchReadRequest` -/
  | dispatch (env : ω) (reported : Bool)

variable {σ ω : Type} (store : MessageStore σ ω) (cfg : MessageStoreConfig)

def step (s : Link σ) : Action ω → Option (Link σ)
  | .run t => some { s with master := s.master.run cfg t }
  | .read n =>
    if s.client.phase = .reading ∧ 0 < n ∧ s.client.position + n ≤ ReadMaxBufferSize ∧
        s.client.taken + n ≤ s.master.sent.length then
      some { s with client := s.client.read s.master.sent n }
    else none
  | .dispatch env reported =>
    if s.client.phase = .dispatching then
      match s.client.dispatchReadRequest store env reported s.store with
      | (c, t) => some { s with client := c, store := t }
    else none

/-- A new connection. The buffers of the client keep what the last one left in them. -/
def connected (byteBufferRead byteBufferBackup : Cells) (s : σ) : Link σ :=
  ⟨{}, { byteBufferRead := byteBufferRead, byteBufferBackup := byteBufferBackup }, s⟩

/-! ### The stream is made of the frames -/

@[simp] lemma stream_nil : stream [] = [] := rfl

@[simp] lemma stream_append (a b : List Frame) : stream (a ++ b) = stream a ++ stream b :=
  List.flatMap_append

@[simp] lemma stream_cons (f : Frame) (fs : List Frame) : stream (f :: fs) = f.bytes ++ stream fs :=
  List.flatMap_cons

@[simp] lemma length_header (f : Frame) : f.header.length = HEADER_SIZE := by
  simp [Frame.header, HEADER_SIZE]

lemma length_bytes (f : Frame) : f.bytes.length = HEADER_SIZE + f.body.length := by
  simp [Frame.bytes]

/-- What one buffer loses, the socket gets. -/
lemma writeBuffer_append (zeroTimes : ℕ) (sent buffer : Bytes) (takes : List ℕ) :
    (writeBuffer zeroTimes sent buffer takes).1 ++ (writeBuffer zeroTimes sent buffer takes).2.1 =
      sent ++ buffer := by
  fun_induction writeBuffer zeroTimes sent buffer takes with
  | case1 => rfl
  | case2 => rfl
  | case3 _ sent buffer n takes _ _ ih => rw [ih, List.append_assoc, List.take_append_drop]
  | case4 => rfl
  | case5 _ sent buffer n takes _ _ _ ih => exact ih

section Master

variable {cfg} {w w' : WriteSocketService}

/-- What has been sent and what remains in the two buffers is the stream of the frames. -/
structure Sending (cfg : MessageStoreConfig) (w : WriteSocketService) : Prop where
  sent : w.sent ++ (w.byteBufferHeader ++ w.selectMapedBufferResult.getD []) = stream w.built
  done : w.lastWriteOver = true → w.byteBufferHeader = [] ∧ w.selectMapedBufferResult = none
  size_le : ∀ f ∈ w.built, f.body.length ≤ cfg.haTransferBatchSize

/-- What `transferData` does: it moves bytes to the socket and says whether any remain. -/
structure Transferred (w w' : WriteSocketService) (result : Bool) : Prop where
  sent : w'.sent ++ (w'.byteBufferHeader ++ w'.selectMapedBufferResult.getD []) =
    w.sent ++ (w.byteBufferHeader ++ w.selectMapedBufferResult.getD [])
  done : result = true → w'.byteBufferHeader = [] ∧ w'.selectMapedBufferResult = none
  built : w'.built = w.built
  prefix_sent : w.sent <+: w'.sent
  next : w'.nextTransferFromWhere = w.nextTransferFromWhere

lemma getD_if_isEmpty (body : Bytes) :
    (if body.isEmpty then none else some body).getD [] = body := by
  cases body <;> rfl

lemma writeBuffer_prefix (zeroTimes : ℕ) (sent buffer : Bytes) (takes : List ℕ) :
    sent <+: (writeBuffer zeroTimes sent buffer takes).1 := by
  fun_induction writeBuffer zeroTimes sent buffer takes with
  | case1 => exact List.prefix_rfl
  | case2 => exact List.prefix_rfl
  | case3 _ sent buffer n takes _ _ ih => exact (List.prefix_append _ _).trans ih
  | case4 => exact List.prefix_rfl
  | case5 _ sent buffer n takes _ _ _ ih => exact ih

lemma transferData_spec (w : WriteSocketService) (takes : List ℕ) :
    Transferred w (w.transferData takes).1 (w.transferData takes).2.1 := by
  have happ := writeBuffer_append 0 w.sent w.byteBufferHeader takes
  have hpre := writeBuffer_prefix 0 w.sent w.byteBufferHeader takes
  unfold WriteSocketService.transferData
  rcases hwrite : writeBuffer 0 w.sent w.byteBufferHeader takes with ⟨sent, header, rest⟩
  rw [hwrite] at happ hpre
  simp only at happ hpre ⊢
  cases hbody : w.selectMapedBufferResult with
  | none =>
    refine ⟨?_, fun h => ⟨by simpa using h, rfl⟩, rfl, hpre, rfl⟩
    rw [hbody]
    simpa using happ
  | some body =>
    by_cases hempty : header.isEmpty
    · have happ' := writeBuffer_append 0 sent body rest
      have hpre' := writeBuffer_prefix 0 sent body rest
      simp only [hempty, if_true]
      rw [List.isEmpty_iff] at hempty
      subst hempty
      rw [List.append_nil] at happ
      refine ⟨?_, fun h => ⟨rfl, if_pos h⟩, rfl, hpre.trans hpre', rfl⟩
      simp only [List.nil_append, getD_if_isEmpty]
      rw [happ', happ, List.append_assoc, hbody, Option.getD_some]
    · simp only [hempty, Bool.false_eq_true, if_false]
      refine ⟨?_, fun h => absurd h (by simp), rfl, hpre, rfl⟩
      simp only [getD_if_isEmpty]
      rw [← List.append_assoc, happ, List.append_assoc, hbody, Option.getD_some]

/-- What one half of a turn does to the frames. -/
structure Advances (w w' : WriteSocketService) : Prop where
  built : w.built <+: w'.built
  sent : w.sent <+: w'.sent

lemma Advances.refl (w : WriteSocketService) : Advances w w := ⟨List.prefix_rfl, List.prefix_rfl⟩

lemma Advances.trans {w'' : WriteSocketService} (h : Advances w w') (h' : Advances w' w'') :
    Advances w w'' :=
  ⟨h.built.trans h'.built, h.sent.trans h'.sent⟩

/-- Writing on after the frames have been built. -/
lemma Sending.write {takes : List ℕ}
    (hsent : w.sent ++ (w.byteBufferHeader ++ w.selectMapedBufferResult.getD []) = stream w.built)
    (hsize : ∀ f ∈ w.built, f.body.length ≤ cfg.haTransferBatchSize) :
    Sending cfg (w.write takes).1 ∧ Advances w (w.write takes).1 := by
  have h := transferData_spec w takes
  refine ⟨⟨?_, h.done, ?_⟩, ?_, h.prefix_sent⟩
  · exact h.sent.trans (hsent.trans (congrArg stream h.built.symm))
  · exact fun f hf => hsize f (h.built ▸ hf)
  · exact h.built ▸ List.prefix_rfl

lemma Sending.heartbeat (h : Sending cfg w) (hover : w.lastWriteOver = true) (takes : List ℕ) :
    Sending cfg (w.buildHeartbeat.write takes).1 ∧
      Advances w (w.buildHeartbeat.write takes).1 := by
  obtain ⟨hheader, hbody⟩ := h.done hover
  have hsent := h.sent
  rw [hheader, hbody] at hsent
  have := @Sending.write cfg w.buildHeartbeat takes ?_ ?_
  · exact ⟨this.1, (List.prefix_append _ _).trans this.2.built, this.2.sent⟩
  · simp only [WriteSocketService.buildHeartbeat, hbody, stream_append, ← hsent]
    simp [stream, Frame.bytes]
  · intro f hf
    rcases List.mem_append.mp hf with hf | hf
    · exact h.size_le f hf
    · rw [List.mem_singleton.mp hf]
      exact Nat.zero_le _

lemma Sending.data (h : Sending cfg w) (hover : w.lastWriteOver = true) (data : Bytes)
    (takes : List ℕ) :
    Sending cfg ((w.buildData cfg data).write takes).1 ∧
      Advances w ((w.buildData cfg data).write takes).1 := by
  obtain ⟨hheader, hbody⟩ := h.done hover
  have hsent := h.sent
  rw [hheader, hbody] at hsent
  have := @Sending.write cfg (w.buildData cfg data) takes ?_ ?_
  · exact ⟨this.1, (List.prefix_append _ _).trans this.2.built, this.2.sent⟩
  · simp only [WriteSocketService.buildData, stream_append, ← hsent]
    simp [stream, Frame.bytes]
  · intro f hf
    rcases List.mem_append.mp hf with hf | hf
    · exact h.size_le f hf
    · rw [List.mem_singleton.mp hf]
      simp only [List.length_take]
      omega

lemma Sending.transfer (h : Sending cfg w) (t : Turn) (takes : List ℕ) :
    Sending cfg (w.transfer cfg t takes) ∧ Advances w (w.transfer cfg t takes) := by
  unfold WriteSocketService.transfer
  split
  · next hover =>
    split
    · exact ⟨h, Advances.refl w⟩
    · next data _ => exact h.data hover data takes
  · exact ⟨h, Advances.refl w⟩

lemma Sending.start (h : Sending cfg w) (t : Turn) :
    Sending cfg (w.start cfg t) ∧ Advances w (w.start cfg t) := by
  unfold WriteSocketService.start
  split
  · split
    · exact ⟨⟨h.sent, h.done, h.size_le⟩, List.prefix_rfl, List.prefix_rfl⟩
    · exact ⟨⟨h.sent, h.done, h.size_le⟩, List.prefix_rfl, List.prefix_rfl⟩
  · exact ⟨h, Advances.refl w⟩

/-- **A turn of the master.** -/
lemma Sending.run (h : Sending cfg w) (t : Turn) :
    Sending cfg (w.run cfg t) ∧ Advances w (w.run cfg t) := by
  unfold WriteSocketService.run
  split
  · exact ⟨h, Advances.refl w⟩
  · obtain ⟨h1, ha1⟩ := h.start t
    simp only
    split
    · next hover =>
      split
      · obtain ⟨h2, ha2⟩ := h1.heartbeat hover t.takes
        obtain ⟨h3, ha3⟩ := h2.transfer t ((w.start cfg t).buildHeartbeat.write t.takes).2
        exact ⟨h3, (ha1.trans ha2).trans ha3⟩
      · obtain ⟨h3, ha3⟩ := h1.transfer t t.takes
        exact ⟨h3, ha1.trans ha3⟩
    · obtain ⟨h2, ha2⟩ := @Sending.write cfg _ t.takes h1.sent h1.size_le
      obtain ⟨h3, ha3⟩ := h2.transfer t ((w.start cfg t).write t.takes).2
      exact ⟨h3, (ha1.trans ha2).trans ha3⟩

end Master

/-! ### The frames are found in the stream -/

section Client

variable {cfg} {w w' : WriteSocketService} {c : HAClient}

/-- The part of the buffer that has not been dispatched. -/
def HAClient.window (c : HAClient) : Bytes :=
  slice c.byteBufferRead c.dispatchPosition (c.position - c.dispatchPosition)

/-- The buffer holds what has been read and not been dispatched. -/
structure Buffered (w : WriteSocketService) (c : HAClient) : Prop where
  dispatch_le : c.dispatchPosition ≤ c.position
  position_le : c.position ≤ ReadMaxBufferSize
  taken_le : c.taken ≤ w.sent.length
  window : stream c.handed ++ c.window = w.sent.take c.taken

/-- The next frame has not been read as a whole. -/
def Waiting (w : WriteSocketService) (c : HAClient) : Prop :=
  ∀ f, c.handed ++ [f] <+: w.built → c.taken < (stream (c.handed ++ [f])).length

structure Receiving (w : WriteSocketService) (c : HAClient) : Prop where
  handed : c.handed <+: w.built
  buffered : c.phase ≠ .closed → Buffered w c
  reading : c.phase = .reading → c.position < ReadMaxBufferSize ∧ Waiting w c

lemma Buffered.taken_eq (h : Buffered w c) :
    c.taken = (stream c.handed).length + (c.position - c.dispatchPosition) := by
  have := congrArg List.length h.window
  rw [List.length_append, List.length_take, Nat.min_eq_left h.taken_le, HAClient.window,
    length_slice] at this
  exact this.symm

lemma Sending.length_le (h : Sending cfg w) : w.sent.length ≤ (stream w.built).length := by
  rw [← h.sent, List.length_append]
  omega

/-- The master goes on: nothing changes for the client. -/
lemma Receiving.advance (h : Receiving w c) (hw : Sending cfg w) (ha : Advances w w') :
    Receiving w' c := by
  refine ⟨h.handed.trans ha.built, fun hphase => ?_, fun hphase => ?_⟩
  · have hb := h.buffered hphase
    obtain ⟨more, hmore⟩ := ha.sent
    refine ⟨hb.dispatch_le, hb.position_le, hb.taken_le.trans ha.sent.length_le, ?_⟩
    rw [hb.window, ← hmore, List.take_append_of_le_length hb.taken_le]
  · obtain ⟨hlt, hwait⟩ := h.reading hphase
    refine ⟨hlt, fun f hf => ?_⟩
    by_cases hlen : (c.handed ++ [f]).length ≤ w.built.length
    · exact hwait f (List.prefix_of_prefix_length_le hf ha.built hlen)
    · -- the frame is new, so nothing of it has been read
      have heq : c.handed = w.built := by
        refine h.handed.eq_of_length_le ?_
        simp only [List.length_append, List.length_singleton] at hlen
        omega
      have h1 := (h.buffered (by simp [hphase])).taken_le
      have h2 := hw.length_le
      rw [stream_append, List.length_append, heq, stream_cons, stream_nil, List.append_nil,
        length_bytes, HEADER_SIZE]
      omega

lemma Receiving.read (h : Receiving w c) {n : ℕ} (hphase : c.phase = .reading)
    (hpos : c.position + n ≤ ReadMaxBufferSize) (hn : c.taken + n ≤ w.sent.length) :
    Receiving w (c.read w.sent n) := by
  have hb := h.buffered (by simp [hphase])
  have hle := hb.dispatch_le
  refine ⟨h.handed, fun _ => ⟨?_, hpos, hn, ?_⟩,
    fun hread => absurd hread (by simp [HAClient.read])⟩
  · exact hle.trans (Nat.le_add_right _ _)
  · have hlen : ((w.sent.drop c.taken).take n).length = n := by
      rw [List.length_take, List.length_drop]
      omega
    have hslice := @slice_write c.byteBufferRead c.position ((w.sent.drop c.taken).take n)
      c.dispatchPosition hle
    rw [hlen, ← Nat.sub_add_comm hle] at hslice
    change stream c.handed ++ slice (Memory.write _ _ _) c.dispatchPosition
      (c.position + n - c.dispatchPosition) = w.sent.take (c.taken + n)
    rw [hslice, ← List.append_assoc, ← HAClient.window, hb.window, List.take_add]

/-- What remains of the stream begins with the window. -/
lemma Buffered.window_prefix (h : Buffered w c) (hw : Sending cfg w) {rest : List Frame}
    (hrest : w.built = c.handed ++ rest) : c.window <+: stream rest := by
  have h1 : stream c.handed ++ c.window <+: stream c.handed ++ stream rest := by
    rw [h.window, ← stream_append, ← hrest, ← hw.sent]
    exact (List.take_prefix _ _).trans (List.prefix_append _ _)
  exact (List.prefix_append_right_inj _).mp h1

/-- A piece of the buffer is that piece of the stream. -/
lemma slice_of_window {bs : Bytes} (h : c.window <+: bs) {a b : ℕ}
    (hab : a + b ≤ c.position - c.dispatchPosition) :
    slice c.byteBufferRead (c.dispatchPosition + a) b = (bs.drop a).take b := by
  have hlen : c.window.length = c.position - c.dispatchPosition := length_slice _ _ _
  have heq := List.prefix_iff_eq_take.mp h
  rw [slice_slice hab, ← HAClient.window, heq, hlen, List.drop_take, List.take_take,
    Nat.min_eq_left (by omega)]

/-- The header of the next frame, when it has been read. -/
lemma Buffered.next_frame (h : Buffered w c) (hw : Sending cfg w) (hhanded : c.handed <+: w.built)
    (h12 : HEADER_SIZE ≤ c.position - c.dispatchPosition) :
    ∃ f, c.handed ++ [f] <+: w.built ∧
      getLongAt c.byteBufferRead c.dispatchPosition = f.offset ∧
      getIntAt c.byteBufferRead (c.dispatchPosition + 8) = Int32.ofNat f.body.length ∧
      (HEADER_SIZE + f.body.length ≤ c.position - c.dispatchPosition →
        slice c.byteBufferRead (c.dispatchPosition + HEADER_SIZE) f.body.length = f.body) := by
  obtain ⟨rest, hrest⟩ := hhanded
  have hpre := h.window_prefix hw hrest.symm
  have h12' : 12 ≤ c.position - c.dispatchPosition := h12
  cases rest with
  | nil =>
    have : c.window = [] := List.prefix_nil.mp hpre
    have := congrArg List.length this
    rw [HAClient.window, length_slice, List.length_nil] at this
    omega
  | cons f rest =>
    rw [stream_cons, Frame.bytes, Frame.header, List.append_assoc, List.append_assoc] at hpre
    refine ⟨f, ⟨rest, by rw [← hrest]; simp⟩, ?_, ?_, fun hle => ?_⟩
    · refine getLongAt_of_slice ?_
      have := slice_of_window hpre (show 0 + 8 ≤ _ by omega)
      rw [Nat.add_zero] at this
      rw [this, List.drop_zero, List.take_append_of_le_length (by simp),
        List.take_of_length_le (by simp)]
    · refine getIntAt_of_slice ?_
      rw [slice_of_window hpre (show 8 + 4 ≤ _ by omega), List.drop_left' (length_putLong _),
        List.take_append_of_le_length (by simp), List.take_of_length_le (by simp)]
    · rw [slice_of_window hpre hle, ← List.append_assoc,
        List.drop_left' (by simp [HEADER_SIZE]), List.take_left' rfl]

/-- Making room moves what has not been dispatched to the front. -/
lemma window_reallocate (h : c.position = ReadMaxBufferSize) :
    c.reallocateByteBuffer.window = c.window := by
  simp only [HAClient.window, HAClient.reallocateByteBuffer, h, Nat.sub_zero]
  split
  · have := slice_write_self c.byteBufferBackup 0
      (slice c.byteBufferRead c.dispatchPosition (ReadMaxBufferSize - c.dispatchPosition))
    rwa [length_slice] at this
  · next hremain =>
    rw [show ReadMaxBufferSize - c.dispatchPosition = 0 by omega, slice_zero, slice_zero]

/-- A frame that is awaited does not fill the buffer. -/
lemma Buffered.room (hcfg : HEADER_SIZE + cfg.haTransferBatchSize ≤ ReadMaxBufferSize)
    (h : Buffered w c) (hw : Sending cfg w) (hhanded : c.handed <+: w.built)
    (hwait : Waiting w c) (hzero : c.dispatchPosition = 0) : c.position < ReadMaxBufferSize := by
  by_contra hfull
  have hdiff : c.position - c.dispatchPosition = ReadMaxBufferSize := by
    have := h.position_le
    omega
  obtain ⟨f, hf, -⟩ := h.next_frame hw hhanded (by rw [hdiff]; omega)
  have h1 := hwait f hf
  have h2 := hw.size_le f (hf.subset (by simp))
  rw [h.taken_eq, hdiff, stream_append, List.length_append, stream_cons, stream_nil,
    List.append_nil, length_bytes] at h1
  omega

/-- The loop ends: the next frame is awaited, and there is room for it. -/
lemma Receiving.finish (hcfg : HEADER_SIZE + cfg.haTransferBatchSize ≤ ReadMaxBufferSize)
    (hb : Buffered w c) (hw : Sending cfg w) (hhanded : c.handed <+: w.built)
    (hwait : Waiting w c) : Receiving w c.finish := by
  unfold HAClient.finish
  by_cases hlt : c.position < ReadMaxBufferSize
  · rw [if_pos hlt]
    exact ⟨hhanded, fun _ => ⟨hb.dispatch_le, hb.position_le, hb.taken_le, hb.window⟩,
      fun _ => ⟨hlt, hwait⟩⟩
  · rw [if_neg hlt]
    have hfull : c.position = ReadMaxBufferSize := by
      have := hb.position_le
      omega
    have hpos : 0 < c.dispatchPosition :=
      Nat.pos_of_ne_zero fun hzero => hlt (hb.room hcfg hw hhanded hwait hzero)
    refine ⟨hhanded, fun _ => ⟨Nat.zero_le _, Nat.sub_le _ _, hb.taken_le, ?_⟩,
      fun _ => ⟨?_, hwait⟩⟩
    · exact (congrArg (stream c.handed ++ ·) (window_reallocate hfull)).trans hb.window
    · change ReadMaxBufferSize - c.dispatchPosition < ReadMaxBufferSize
      have : 0 < ReadMaxBufferSize := by decide
      omega

/-- The size of a body as the client reads it. -/
lemma toInt_ofNat_size {n : ℕ} (h : HEADER_SIZE + n ≤ ReadMaxBufferSize) :
    (Int32.ofNat n).toInt = n ∧ (Int32.ofNat HEADER_SIZE + Int32.ofNat n).toInt = HEADER_SIZE + n ∧
      ¬ Int32.ofNat n < 0 := by
  have h1 : n < 2 ^ 31 := by
    simp only [HEADER_SIZE, ReadMaxBufferSize] at h
    omega
  have h2 : HEADER_SIZE + n < 2 ^ 31 := by
    simp only [HEADER_SIZE, ReadMaxBufferSize] at h ⊢
    omega
  have h3 := Int32.toInt_ofNat_of_lt h1
  refine ⟨h3, ?_, ?_⟩
  · rw [← Int32.ofNat_add, Int32.toInt_ofNat_of_lt h2]
    push_cast
    rfl
  · rw [Int32.lt_iff_toInt_lt, h3]
    simp

variable {σ ω : Type} {store : MessageStore σ ω} {env : ω} {reported : Bool} {s : σ}

/-- **A turn of the client.** It gives up, takes the next frame, or waits for the rest of it. -/
lemma dispatchReadRequest_cases
    (hcfg : HEADER_SIZE + cfg.haTransferBatchSize ≤ ReadMaxBufferSize)
    (hb : Buffered w c) (hw : Sending cfg w) (hhanded : c.handed <+: w.built) :
    (c.dispatchReadRequest store env reported s = ({ c with phase := .closed }, s)) ∨
    (∃ f, c.handed ++ [f] <+: w.built ∧
      HEADER_SIZE + f.body.length ≤ c.position - c.dispatchPosition ∧
      (store.getMaxPhyOffset s = 0 ∨ store.getMaxPhyOffset s = f.offset) ∧
      c.dispatchReadRequest store env reported s =
        ({ c with
            dispatchPosition := c.dispatchPosition + HEADER_SIZE + f.body.length
            phase := if reported then .dispatching else .closed
            handed := c.handed ++ [f] },
          store.appendToCommitLog env f.offset f.body s)) ∨
    (Waiting w c ∧ c.dispatchReadRequest store env reported s = (c.finish, s)) := by
  unfold HAClient.dispatchReadRequest
  by_cases h12 : HEADER_SIZE ≤ c.position - c.dispatchPosition
  · obtain ⟨f, hf, hlong, hint, hbody⟩ := hb.next_frame hw hhanded h12
    have hsize := hw.size_le f (hf.subset (by simp))
    obtain ⟨hsize1, hsize2, hsize3⟩ :=
      toInt_ofNat_size (show HEADER_SIZE + f.body.length ≤ _ by omega)
    simp only [if_pos h12, hlong, hint, hsize2]
    by_cases hoff : store.getMaxPhyOffset s ≠ 0 ∧ store.getMaxPhyOffset s ≠ f.offset
    · exact .inl (by rw [if_pos hoff])
    · rw [if_neg hoff]
      by_cases hall : HEADER_SIZE + f.body.length ≤ c.position - c.dispatchPosition
      · refine .inr (.inl ⟨f, hf, hall, by tauto, ?_⟩)
        rw [if_pos (by exact_mod_cast hall), if_neg hsize3, hsize1, Int.toNat_natCast, hbody hall]
      · refine .inr (.inr ⟨fun f' hf' => ?_, by rw [if_neg (by exact_mod_cast hall)]⟩)
        have heq : c.handed ++ [f'] = c.handed ++ [f] :=
          (List.prefix_of_prefix_length_le hf' hf (by simp)).eq_of_length (by simp)
        rw [heq, hb.taken_eq, stream_append, List.length_append, stream_cons, stream_nil,
          List.append_nil, length_bytes]
        omega
  · simp only [if_neg h12]
    refine .inr (.inr ⟨fun f hf => ?_, trivial⟩)
    rw [hb.taken_eq, stream_append, List.length_append, stream_cons, stream_nil,
      List.append_nil, length_bytes]
    omega

lemma Receiving.dispatch (hcfg : HEADER_SIZE + cfg.haTransferBatchSize ≤ ReadMaxBufferSize)
    (h : Receiving w c) (hw : Sending cfg w) (hphase : c.phase = .dispatching) :
    Receiving w (c.dispatchReadRequest store env reported s).1 := by
  have hb := h.buffered (by simp [hphase])
  rcases @dispatchReadRequest_cases cfg w c σ ω store env reported s hcfg hb hw h.handed with
    heq | ⟨f, hf, hall, -, heq⟩ | ⟨hwait, heq⟩
  · rw [heq]
    exact ⟨h.handed, fun hne => absurd rfl hne, fun hread => absurd hread (by simp)⟩
  · rw [heq]
    refine ⟨hf, fun _ => ⟨?_, hb.position_le, hb.taken_le, ?_⟩, fun hread => ?_⟩
    · have := hb.dispatch_le
      simp only
      omega
    · -- the window loses the frame that is handed on
      have hframe : c.window.take (HEADER_SIZE + f.body.length) = f.bytes := by
        obtain ⟨rest, hrest⟩ := hf
        have hpre := hb.window_prefix hw (show w.built = c.handed ++ f :: rest by
          rw [← hrest]; simp)
        rw [List.prefix_iff_eq_take.mp hpre, List.take_take, HAClient.window, length_slice,
          Nat.min_eq_left hall, stream_cons, List.take_left' (length_bytes f)]
      have hdrop := @slice_slice c.byteBufferRead c.dispatchPosition
        (c.position - c.dispatchPosition) (HEADER_SIZE + f.body.length)
        (c.position - c.dispatchPosition - (HEADER_SIZE + f.body.length)) (by omega)
      rw [← HAClient.window, List.take_of_length_le (by simp [HAClient.window])] at hdrop
      simp only [HAClient.window] at hdrop ⊢
      rw [Nat.add_assoc, ← Nat.sub_sub, hdrop, stream_append, List.append_assoc, stream_cons,
        stream_nil, List.append_nil, ← hframe, HAClient.window, List.take_append_drop]
      exact hb.window
    · cases reported <;> simp at hread
  · rw [heq]
    exact Receiving.finish hcfg hb hw h.handed hwait

end Client

/-! ### Runs -/

section Runs

variable {store} {cfg} {s s' : Link σ}

structure Linked (cfg : MessageStoreConfig) (s : Link σ) : Prop where
  sending : Sending cfg s.master
  receiving : Receiving s.master s.client

lemma linked_connected (byteBufferRead byteBufferBackup : Cells) (t : σ) :
    Linked cfg (connected byteBufferRead byteBufferBackup t) := by
  refine ⟨⟨rfl, fun _ => ⟨rfl, rfl⟩, by simp [connected]⟩,
    ⟨List.prefix_rfl, fun _ => ?_, fun _ => ?_⟩⟩
  · exact ⟨le_rfl, Nat.zero_le _, le_rfl, rfl⟩
  · refine ⟨show 0 < ReadMaxBufferSize by decide, fun f hf => ?_⟩
    simp [connected] at hf

/-- **One step.** -/
lemma step_linked (hcfg : HEADER_SIZE + cfg.haTransferBatchSize ≤ ReadMaxBufferSize)
    {a : Action ω} (h : Linked cfg s) (hs : step store cfg s a = some s') : Linked cfg s' := by
  cases a with
  | run t =>
    obtain rfl := Option.some.inj hs
    obtain ⟨h1, h2⟩ := h.sending.run t
    exact ⟨h1, h.receiving.advance h.sending h2⟩
  | read n =>
    simp only [step] at hs
    split at hs
    · next hcond =>
      obtain ⟨hphase, -, hpos, hn⟩ := hcond
      obtain rfl := Option.some.inj hs
      exact ⟨h.sending, h.receiving.read hphase hpos hn⟩
    · exact absurd hs (by simp)
  | dispatch env reported =>
    simp only [step] at hs
    split at hs
    · next hphase =>
      obtain rfl := Option.some.inj hs
      exact ⟨h.sending, h.receiving.dispatch hcfg h.sending hphase⟩
    · exact absurd hs (by simp)

/-- What is said of a connection: what the client has handed on is the beginning of the frames,
the stream is cut nowhere but at its end, and nothing that has been read is lost. -/
structure Framed (s : Link σ) : Prop where
  handed : s.client.handed <+: s.master.built
  data : s.client.handed.filter Frame.isData <+: s.master.built.filter Frame.isData
  sent : s.master.sent <+: stream s.master.built
  kept : s.client.phase ≠ .closed →
    stream s.client.handed ++ s.client.window = s.master.sent.take s.client.taken
  complete : s.client.phase = .reading → Waiting s.master s.client

lemma Linked.framed (h : Linked cfg s) : Framed s where
  handed := h.receiving.handed
  data := h.receiving.handed.filter _
  sent := ⟨_, h.sending.sent⟩
  kept hphase := (h.receiving.buffered hphase).window
  complete hphase := (h.receiving.reading hphase).2

/-- **Framing.** However the writes of the master and the reads of the slave are cut, what the
slave hands to its store are the first frames of the master, heartbeats among them; without the
heartbeats these are the first data frames. As long as the connection lasts no byte that has been
read is lost, and between two reads every frame that has been read as a whole has been handed on. -/
theorem framing (hcfg : HEADER_SIZE + cfg.haTransferBatchSize ≤ ReadMaxBufferSize)
    {byteBufferRead byteBufferBackup : Cells} {t : σ} {actions : List (Action ω)}
    (hr : run (step store cfg) (connected byteBufferRead byteBufferBackup t) actions = some s) :
    Framed s := by
  have hinv : Linked cfg s :=
    run_inductive (fun _ _ _ h hs => step_linked hcfg h hs) (linked_connected _ _ _) hr
  exact hinv.framed

/-- A store that keeps what it is given. -/
def keeps : MessageStore (List Frame) Unit where
  getMaxPhyOffset _ := 0
  appendToCommitLog _ offset body s := s ++ [⟨offset, body⟩]

/-- A turn for the slave that asks for offset 7. -/
def turn (heartbeat : Bool) (takes : List ℕ) (data : Option Bytes) : Turn :=
  ⟨7, 9, heartbeat, takes, fun _ => data⟩

/-- A heartbeat is handed to the store, and it is no data frame. -/
theorem framing_heartbeat :
    ∃ s, run (step keeps ⟨100, 1024⟩) (connected (fun _ => 0) (fun _ => 0) [])
        [.run (turn true [12] none), .read 12, .dispatch () true, .dispatch () true] = some s ∧
      s.store = [⟨7, []⟩] ∧ s.client.handed = s.store ∧
      ¬ s.client.handed <+: s.master.built.filter Frame.isData := by
  refine ⟨_, rfl, ?_, ?_, ?_⟩
  · decide
  · decide
  · decide

/-- Two frames in pieces: the header of the first one is written in two turns. -/
theorem framing_pieces :
    ∃ s, run (step keeps ⟨2, 1024⟩) (connected (fun _ => 0) (fun _ => 0) [])
        [.run (turn false [5, 0, 0, 0] (some [1, 2, 3])), .read 4, .dispatch () true,
          .run (turn true [7, 1, 1, 14] (some [3])), .read 11, .dispatch () true,
          .dispatch () true] = some s ∧ Framed s := by
  refine ⟨_, rfl, ?_⟩
  exact @framing _ _ keeps ⟨2, 1024⟩ _ (by decide) (fun _ => 0) (fun _ => 0) []
    [.run (turn false [5, 0, 0, 0] (some [1, 2, 3])), .read 4, .dispatch () true,
      .run (turn true [7, 1, 1, 14] (some [3])), .read 11, .dispatch () true,
      .dispatch () true] rfl

end Runs

end CloudMQ.HATransfer
