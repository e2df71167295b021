import CloudMQ.Memory
import CloudMQ.Runs

/-!
The offsets a slave reports, as the master reads them: `ReadSocketService.processReadEvent` and
`HAService.notifyTransferSome`.

A slave sends eight bytes for each report. The master reads them in pieces of any size into a
buffer, looks at the last complete word of it, and starts the buffer over when it is full. Every
connection raises the maximum all of them share by compare-and-set.
-/

namespace CloudMQ.HAConnection

open CloudMQ.Buffer CloudMQ.Memory CloudMQ.Runs

def ReadMaxBufferSize : ℕ := 1024 * 1024

/-- What a slave reports is the end of its log: a `long` that is not negative. -/
abbrev Offset := Fin (2 ^ 63)

def toLong (o : Offset) : Int64 := Int64.ofNat o

/-- The bytes of the reports. -/
def reportBytes (reports : List Offset) : Bytes := reports.flatMap fun o => putLong (toLong o)

/-- Where the read thread of a connection stands in `notifyTransferSome`. -/
inductive Notify
  | idle
  /-- about to read the maximum -/
  | get (offset : Int64)
  /-- about to compare and set, with the value that was read -/
  | compareAndSet (offset value : Int64)
  deriving DecidableEq

/-- A connection and the slave at its other end: all it will ever report, and how many bytes of
that have been read. `assigned` are the values `slaveAckOffset` has had. -/
structure Connection where
  reports : List Offset
  taken : ℕ := 0
  byteBufferRead : Cells := fun _ => 0
  position : ℕ := 0
  processPostion : ℕ := 0
  slaveRequestOffset : Int64 := -1
  slaveAckOffset : Int64 := -1
  notify : Notify := .idle
  assigned : List Int64 := []

namespace Connection

variable (c : Connection)

/-- The entry of `processReadEvent`: a full buffer is started over. -/
def processReadEvent : Connection :=
  if c.position < ReadMaxBufferSize then c else { c with position := 0, processPostion := 0 }

/-- The next `n` bytes have been read from the socket. -/
def fill (n : ℕ) : Connection :=
  { c with
    byteBufferRead :=
      write c.byteBufferRead c.position (((reportBytes c.reports).drop c.taken).take n)
    position := c.position + n
    taken := c.taken + n }

/-- Look for a report behind the ones seen before. -/
def receive : Connection :=
  if 8 ≤ c.position - c.processPostion then
    let pos := c.position - c.position % 8
    let readOffset := getLongAt c.byteBufferRead (pos - 8)
    { c with
      processPostion := pos
      slaveAckOffset := readOffset
      slaveRequestOffset :=
        if c.slaveRequestOffset < 0 then readOffset else c.slaveRequestOffset
      notify := .get readOffset
      assigned := c.assigned ++ [readOffset] }
  else c

end Connection

/-- The service: its connections and the maximum they share. `acknowledged` are the offsets that
`notifyTransferSome` has dealt with. -/
structure HAService where
  connections : List Connection
  push2SlaveMaxOffset : Int64
  acknowledged : List Int64

def HAService.started : HAService := ⟨[], 0, []⟩

inductive Action
  | accept (reports : List Offset)
  | processReadEvent (i : ℕ)
  | read (i n : ℕ)
  /-- the read of the maximum in `notifyTransferSome` -/
  | get (i : ℕ)
  /-- the test and the `compareAndSet` of `notifyTransferSome` -/
  | compareAndSet (i : ℕ)

/-- Replace a connection. -/
def HAService.set (s : HAService) (i : ℕ) (c : Connection) : HAService :=
  { s with connections := s.connections.set i c }

def read (s : HAService) (i n : ℕ) (c : Connection) : Option HAService :=
  if c.notify = .idle ∧ 0 < n ∧ c.position + n ≤ ReadMaxBufferSize ∧
      c.taken + n ≤ (reportBytes c.reports).length then
    some (s.set i (c.fill n).receive)
  else none

/-- One turn of the loop in `notifyTransferSome`. -/
def compareAndSet (s : HAService) (i : ℕ) (c : Connection) (offset value : Int64) : HAService :=
  if value < offset then
    if s.push2SlaveMaxOffset = value then
      { s.set i { c with notify := .idle } with
        push2SlaveMaxOffset := offset, acknowledged := s.acknowledged ++ [offset] }
    else s.set i { c with notify := .get offset }
  else { s.set i { c with notify := .idle } with acknowledged := s.acknowledged ++ [offset] }

def step (s : HAService) : Action → Option HAService
  | .accept reports => some { s with connections := s.connections ++ [{ reports := reports }] }
  | .processReadEvent i =>
    s.connections[i]?.bind fun c =>
      if c.notify = .idle then some (s.set i c.processReadEvent) else none
  | .read i n => s.connections[i]?.bind (read s i n)
  | .get i =>
    s.connections[i]?.bind fun c =>
      match c.notify with
      | .get offset =>
        some (s.set i { c with notify := .compareAndSet offset s.push2SlaveMaxOffset })
      | _ => none
  | .compareAndSet i =>
    s.connections[i]?.bind fun c =>
      match c.notify with
      | .compareAndSet offset value => some (compareAndSet s i c offset value)
      | _ => none

/-! ### The decoder -/

section Decoder

variable {c : Connection}

@[simp] lemma length_reportBytes (reports : List Offset) :
    (reportBytes reports).length = 8 * reports.length := by
  induction reports with
  | nil => rfl
  | cons o reports ih =>
    rw [reportBytes, List.flatMap_cons, List.length_append, ← reportBytes, ih, length_putLong,
      List.length_cons]
    omega

/-- The words of the stream are the reports. -/
lemma word_reportBytes {reports : List Offset} {i : ℕ} (hi : i < reports.length) :
    ((reportBytes reports).drop (8 * i)).take 8 = putLong (toLong reports[i]) := by
  induction reports generalizing i with
  | nil => simp at hi
  | cons o reports ih =>
    rw [reportBytes, List.flatMap_cons, ← reportBytes]
    cases i with
    | zero => simp
    | succ i =>
      have hlen : (putLong (toLong o)).length ≤ 8 * (i + 1) := by rw [length_putLong]; omega
      rw [List.drop_append, List.drop_of_length_le hlen, List.nil_append, length_putLong,
        show 8 * (i + 1) - 8 = 8 * i by omega]
      exact ih (by simpa using hi)

lemma toInt_toLong (o : Offset) : (toLong o).toInt = o.val := Int64.toInt_ofNat_of_lt o.isLt

/-- The reports that have been received as a whole. -/
def Connection.received (c : Connection) : List Offset := c.reports.take (c.taken / 8)

/-- The buffer holds the end of what has been read, from a word boundary on. -/
structure Decoding (c : Connection) : Prop where
  position_le : c.position ≤ c.taken
  taken_le : c.taken ≤ 8 * c.reports.length
  aligned : 8 ∣ c.taken - c.position
  window : slice c.byteBufferRead 0 c.position =
    ((reportBytes c.reports).drop (c.taken - c.position)).take c.position
  process : c.processPostion = c.position - c.position % 8
  ack : c.slaveAckOffset = (c.received.getLast?.map toLong).getD (-1)
  assigned : ∀ v ∈ c.assigned, ∃ o ∈ c.received, v = toLong o
  request : c.slaveRequestOffset = c.assigned.head?.getD (-1)

lemma decoding_accept (reports : List Offset) : Decoding { reports := reports } := by
  refine ⟨le_rfl, Nat.zero_le _, by simp, by simp, rfl, ?_, by simp, rfl⟩
  simp [Connection.received]

lemma eight_dvd_ReadMaxBufferSize : 8 ∣ ReadMaxBufferSize := ⟨131072, rfl⟩

lemma Decoding.processReadEvent (h : Decoding c) (hle : c.position ≤ ReadMaxBufferSize) :
    Decoding c.processReadEvent := by
  unfold Connection.processReadEvent
  split
  · exact h
  · next hfull =>
    have hpos : c.position = ReadMaxBufferSize := by omega
    refine ⟨Nat.zero_le _, h.taken_le, ?_, by simp, rfl, h.ack, h.assigned, h.request⟩
    have h1 := h.aligned
    have h2 := h.position_le
    have h3 := eight_dvd_ReadMaxBufferSize
    rw [← hpos] at h3
    simp only [Nat.sub_zero]
    rw [← Nat.sub_add_cancel h2]
    exact h1.add h3

/-- The window after a read. -/
lemma window_fill (h : Decoding c) {n : ℕ} (hn : c.taken + n ≤ 8 * c.reports.length) :
    slice (c.fill n).byteBufferRead 0 (c.position + n) =
      ((reportBytes c.reports).drop (c.taken - c.position)).take (c.position + n) := by
  have hlen : (((reportBytes c.reports).drop c.taken).take n).length = n := by
    simp only [List.length_take, List.length_drop, length_reportBytes]
    omega
  have hw := @slice_write c.byteBufferRead c.position
    (((reportBytes c.reports).drop c.taken).take n) 0 (Nat.zero_le _)
  rw [Nat.sub_zero, hlen, h.window] at hw
  rw [Connection.fill, hw, List.take_add, List.drop_drop, Nat.sub_add_cancel h.position_le]

/-- The last complete word of the buffer is the latest complete report. -/
lemma getLongAt_fill (h : Decoding c) {n : ℕ} (hn : c.taken + n ≤ 8 * c.reports.length)
    (h8 : 8 ≤ c.position + n) :
    ∃ hi : (c.taken + n) / 8 - 1 < c.reports.length,
      getLongAt (c.fill n).byteBufferRead (c.position + n - (c.position + n) % 8 - 8) =
        toLong c.reports[(c.taken + n) / 8 - 1] := by
  obtain ⟨k, hk⟩ := h.aligned
  have hle := h.position_le
  have hi : (c.taken + n) / 8 - 1 < c.reports.length := by omega
  refine ⟨hi, getLongAt_of_slice ?_⟩
  have hs := @slice_slice (c.fill n).byteBufferRead 0 (c.position + n)
    (c.position + n - (c.position + n) % 8 - 8) 8 (by omega)
  rw [Nat.zero_add, window_fill h hn] at hs
  rw [hs, ← word_reportBytes hi, List.drop_take, List.take_take, List.drop_drop,
    Nat.min_eq_left (by omega)]
  congr 2
  omega

lemma getLast?_take {reports : List Offset} {k : ℕ} (hk : k - 1 < reports.length) (h0 : 0 < k) :
    (reports.take k).getLast? = some reports[k - 1] := by
  rw [List.getLast?_take, if_neg (by omega), List.getElem?_eq_getElem hk, Option.some_or]

lemma mem_received_mono {n : ℕ} {o : Offset} (h : o ∈ c.received) : o ∈ (c.fill n).received :=
  List.take_subset_take_left _ (Nat.div_le_div_right (Nat.le_add_right _ _)) h

/-- A read: nothing is assigned, or the latest complete report is. -/
lemma receive_cases (h : Decoding c) {n : ℕ} (hn : c.taken + n ≤ 8 * c.reports.length) :
    ((c.fill n).receive = c.fill n ∧ (c.fill n).received = c.received) ∨
    ∃ o, (c.fill n).received.getLast? = some o ∧
      (c.fill n).receive = { c.fill n with
        processPostion := (c.fill n).position - (c.fill n).position % 8
        slaveAckOffset := toLong o
        slaveRequestOffset := if c.slaveRequestOffset < 0 then toLong o else c.slaveRequestOffset
        notify := .get (toLong o)
        assigned := c.assigned ++ [toLong o] } := by
  obtain ⟨k, hk⟩ := h.aligned
  have hle := h.position_le
  have hproc := h.process
  by_cases h8 : 8 ≤ (c.fill n).position - (c.fill n).processPostion
  · have h8' : 8 ≤ c.position + n - c.processPostion := h8
    obtain ⟨hi, hlong⟩ := getLongAt_fill h hn (by omega)
    refine .inr ⟨_, getLast?_take hi (by omega), ?_⟩
    unfold Connection.receive
    rw [if_pos h8, ← hlong]
    rfl
  · refine .inl ⟨?_, ?_⟩
    · unfold Connection.receive
      rw [if_neg h8]
    · have h8' : ¬ 8 ≤ c.position + n - c.processPostion := h8
      have : (c.taken + n) / 8 = c.taken / 8 := by omega
      simp only [Connection.received, Connection.fill, this]

lemma request_nonneg (h : Decoding c) (hne : c.assigned ≠ []) : ¬ c.slaveRequestOffset < 0 := by
  obtain ⟨v, vs, hv⟩ := List.exists_cons_of_ne_nil hne
  obtain ⟨o, -, ho⟩ := h.assigned v (by simp [hv])
  rw [h.request, hv, List.head?_cons, Option.getD_some, ho, Int64.lt_iff_toInt_lt, toInt_toLong]
  simp

lemma Decoding.read (h : Decoding c) {n : ℕ} (hn : c.taken + n ≤ 8 * c.reports.length) :
    Decoding (c.fill n).receive := by
  have hle := h.position_le
  have hal : 8 ∣ c.taken + n - (c.position + n) := by
    rw [Nat.add_sub_add_right]; exact h.aligned
  have hwin : slice (c.fill n).byteBufferRead 0 (c.position + n) =
      ((reportBytes c.reports).drop (c.taken + n - (c.position + n))).take (c.position + n) := by
    rw [Nat.add_sub_add_right]; exact window_fill h hn
  rcases receive_cases h hn with ⟨hr, hrec⟩ | ⟨o, hlast, hr⟩
  · rw [hr]
    refine ⟨Nat.add_le_add_right hle n, hn, hal, hwin, ?_, ?_, ?_, h.request⟩
    · have hproc := h.process
      have h8 : (c.taken + n) / 8 = c.taken / 8 ∨ c.reports.length < c.taken / 8 := by
        have := congrArg List.length hrec
        simp only [Connection.received, Connection.fill, List.length_take] at this
        have := h.taken_le
        omega
      obtain ⟨k, hk⟩ := h.aligned
      have := h.taken_le
      simp only [Connection.fill]
      omega
    · rw [hrec]; exact h.ack
    · rw [hrec]; exact h.assigned
  · rw [hr]
    refine ⟨Nat.add_le_add_right hle n, hn, hal, hwin, rfl, ?_, ?_, ?_⟩
    · change toLong o = (((c.fill n).received.getLast?).map toLong).getD (-1)
      rw [hlast]
      rfl
    · intro v hv
      rcases List.mem_append.mp hv with hv | hv
      · obtain ⟨o', ho', rfl⟩ := h.assigned v hv
        exact ⟨o', mem_received_mono ho', rfl⟩
      · exact ⟨o, List.mem_of_getLast? hlast, List.mem_singleton.mp hv⟩
    · simp only
      cases hva : c.assigned with
      | nil =>
        have hreq := h.request
        rw [hva, List.head?_nil, Option.getD_none] at hreq
        rw [hreq, if_pos (by decide)]
        rfl
      | cons v vs =>
        rw [if_neg (request_nonneg h (by simp [hva])), h.request, hva]
        rfl

lemma Decoding.setNotify (h : Decoding c) (n : Notify) : Decoding { c with notify := n } :=
  ⟨h.position_le, h.taken_le, h.aligned, h.window, h.process, h.ack, h.assigned, h.request⟩

end Decoder

/-! ### The shared maximum -/

/-- The value a connection is about to acknowledge. -/
def Notify.offset? : Notify → Option Int64
  | .idle => none
  | .get offset => some offset
  | .compareAndSet offset _ => some offset

/-- What one connection contributes to the invariant. -/
structure Connected (push : Int64) (acknowledged : List Int64) (c : Connection) : Prop where
  decoding : Decoding c
  position_le : c.position ≤ ReadMaxBufferSize
  pending : ∀ v ∈ c.assigned, v ∈ acknowledged ∨ c.notify.offset? = some v
  notified : ∀ v ∈ c.notify.offset?, v ∈ c.assigned
  seen : ∀ offset value, c.notify = .compareAndSet offset value → value.toInt ≤ push.toInt

structure Inv (s : HAService) : Prop where
  connected : ∀ c ∈ s.connections, Connected s.push2SlaveMaxOffset s.acknowledged c
  push : s.push2SlaveMaxOffset.toInt = (s.acknowledged.map Int64.toInt).foldl max 0
  source : ∀ v ∈ s.acknowledged, ∃ c ∈ s.connections, v ∈ c.assigned

/-- What a step does to the connections: they only get more values. -/
structure Extends (s s' : HAService) : Prop where
  push : s.push2SlaveMaxOffset.toInt ≤ s'.push2SlaveMaxOffset.toInt
  assigned : ∀ (i : ℕ) (c : Connection), s.connections[i]? = some c →
    ∃ c' : Connection, s'.connections[i]? = some c' ∧ c.assigned <+: c'.assigned

lemma Extends.refl (s : HAService) : Extends s s :=
  ⟨le_rfl, fun _ c h => ⟨c, h, List.prefix_rfl⟩⟩

lemma Extends.trans {s t u : HAService} (h : Extends s t) (h' : Extends t u) : Extends s u := by
  refine ⟨h.push.trans h'.push, fun i c hc => ?_⟩
  obtain ⟨c', hc', h1⟩ := h.assigned i c hc
  obtain ⟨c'', hc'', h2⟩ := h'.assigned i c' hc'
  exact ⟨c'', hc'', h1.trans h2⟩

section Steps

variable {s s' : HAService} {i : ℕ} {c c' : Connection}

lemma Connected.mono {push push' : Int64} {acknowledged : List Int64} (new : List Int64)
    (h : Connected push acknowledged c) (hpush : push.toInt ≤ push'.toInt) :
    Connected push' (acknowledged ++ new) c :=
  ⟨h.decoding, h.position_le, fun v hv => (h.pending v hv).imp_left (List.mem_append_left _),
    h.notified, fun o v hn => (h.seen o v hn).trans hpush⟩

/-- A step of one connection. The maximum and the acknowledged values may grow with it. -/
lemma inv_set {push : Int64} {new : List Int64} (h : Inv s) (hc : s.connections[i]? = some c)
    (hle : s.push2SlaveMaxOffset.toInt ≤ push.toInt)
    (hpush : push.toInt = ((s.acknowledged ++ new).map Int64.toInt).foldl max 0)
    (hc' : Connected push (s.acknowledged ++ new) c') (hpre : c.assigned <+: c'.assigned)
    (hnew : ∀ v ∈ new, v ∈ c'.assigned) :
    Inv ⟨s.connections.set i c', push, s.acknowledged ++ new⟩ ∧
      Extends s ⟨s.connections.set i c', push, s.acknowledged ++ new⟩ := by
  have hi : i < s.connections.length := (List.getElem?_eq_some_iff.mp hc).1
  have hself : (s.connections.set i c')[i]? = some c' := by simp [hi]
  have hext : Extends s ⟨s.connections.set i c', push, s.acknowledged ++ new⟩ := by
    refine ⟨hle, fun j d hd => ?_⟩
    by_cases hij : i = j
    · subst hij
      rw [hc, Option.some.injEq] at hd
      exact ⟨c', hself, hd ▸ hpre⟩
    · exact ⟨d, by simp only; rw [List.getElem?_set_ne hij]; exact hd, List.prefix_rfl⟩
  refine ⟨⟨fun d hd => ?_, hpush, fun v hv => ?_⟩, hext⟩
  · rcases List.mem_or_eq_of_mem_set hd with hd | rfl
    · exact (h.connected d hd).mono new hle
    · exact hc'
  · rcases List.mem_append.mp hv with hv | hv
    · obtain ⟨d, hd, hvd⟩ := h.source v hv
      obtain ⟨j, hj⟩ := List.getElem?_of_mem hd
      obtain ⟨d', hd', hpre'⟩ := hext.assigned j d hj
      exact ⟨d', List.mem_of_getElem? hd', hpre'.subset hvd⟩
    · exact ⟨c', List.mem_of_getElem? hself, hnew v hv⟩

lemma foldl_max_snoc (l : List Int64) (v : Int64) :
    ((l ++ [v]).map Int64.toInt).foldl max 0 = max ((l.map Int64.toInt).foldl max 0) v.toInt := by
  rw [List.map_append, List.foldl_append]
  rfl

/-- A step of a connection that acknowledges nothing. -/
lemma inv_set_idle (h : Inv s) (hc : s.connections[i]? = some c)
    (hc' : Connected s.push2SlaveMaxOffset s.acknowledged c') (hpre : c.assigned <+: c'.assigned) :
    Inv (s.set i c') ∧ Extends s (s.set i c') := by
  have := @inv_set s i c c' s.push2SlaveMaxOffset [] h hc le_rfl
    (by rw [List.append_nil]; exact h.push) (by rw [List.append_nil]; exact hc') hpre (by simp)
  rwa [List.append_nil] at this

/-- One turn of the loop: the value is dealt with, or the maximum is read again. -/
lemma step_compareAndSet {offset value : Int64} (h : Inv s) (hc : s.connections[i]? = some c)
    (hn : c.notify = .compareAndSet offset value) :
    Inv (compareAndSet s i c offset value) ∧ Extends s (compareAndSet s i c offset value) := by
  have hcon := h.connected c (List.mem_of_getElem? hc)
  have hmem : offset ∈ c.assigned := hcon.notified offset (by simp [hn, Notify.offset?])
  have hseen := hcon.seen offset value hn
  -- what remains to be shown when the value has been dealt with
  have hdone : ∀ push : Int64, s.push2SlaveMaxOffset.toInt ≤ push.toInt →
      Connected push (s.acknowledged ++ [offset]) { c with notify := .idle } := by
    intro push hle
    refine ⟨hcon.decoding.setNotify .idle, hcon.position_le, fun v hv => .inl ?_,
      by simp [Notify.offset?], by simp⟩
    rcases hcon.pending v hv with hv | hv
    · exact List.mem_append_left _ hv
    · rw [hn, Notify.offset?, Option.some.injEq] at hv
      simp [hv]
  unfold compareAndSet
  split
  · next hlt =>
    rw [Int64.lt_iff_toInt_lt] at hlt
    split
    · next heq =>
      rw [← heq] at hlt
      refine inv_set h hc hlt.le ?_ (hdone offset hlt.le) List.prefix_rfl (by simpa using hmem)
      rw [foldl_max_snoc, ← h.push, max_eq_right hlt.le]
    · refine inv_set_idle h hc ?_ List.prefix_rfl
      refine ⟨hcon.decoding.setNotify _, hcon.position_le, fun v hv => ?_, ?_, by simp⟩
      · have := hcon.pending v hv
        rwa [hn] at this
      · simpa [Notify.offset?] using hmem
  · next hge =>
    rw [Int64.lt_iff_toInt_lt] at hge
    refine inv_set h hc le_rfl ?_ (hdone _ le_rfl) List.prefix_rfl (by simpa using hmem)
    rw [foldl_max_snoc, ← h.push, max_eq_left (by omega)]
    rfl

lemma connected_processReadEvent {push : Int64} {acknowledged : List Int64}
    (h : Connected push acknowledged c) :
    Connected push acknowledged c.processReadEvent ∧
      c.assigned <+: c.processReadEvent.assigned := by
  have hdec := h.decoding.processReadEvent h.position_le
  unfold Connection.processReadEvent at hdec ⊢
  by_cases hfull : c.position < ReadMaxBufferSize
  · rw [if_pos hfull]
    exact ⟨h, List.prefix_rfl⟩
  · rw [if_neg hfull] at hdec ⊢
    exact ⟨⟨hdec, Nat.zero_le _, h.pending, h.notified, h.seen⟩, List.prefix_rfl⟩

/-- A read: what is assigned is about to be acknowledged. -/
lemma connected_read {push : Int64} {acknowledged : List Int64} {n : ℕ}
    (h : Connected push acknowledged c) (hidle : c.notify = .idle)
    (hpos : c.position + n ≤ ReadMaxBufferSize) (hn : c.taken + n ≤ 8 * c.reports.length) :
    Connected push acknowledged (c.fill n).receive ∧
      c.assigned <+: (c.fill n).receive.assigned := by
  have hack : ∀ v ∈ c.assigned, v ∈ acknowledged := by
    intro v hv
    simpa [hidle, Notify.offset?] using h.pending v hv
  have hdec := h.decoding.read hn
  rcases receive_cases h.decoding hn with ⟨hr, -⟩ | ⟨o, -, hr⟩
  · rw [hr] at hdec ⊢
    refine ⟨⟨hdec, hpos, h.pending, h.notified, h.seen⟩, List.prefix_rfl⟩
  · rw [hr] at hdec ⊢
    refine ⟨⟨hdec, hpos, fun v hv => ?_, ?_, by simp⟩, List.prefix_append _ _⟩
    · rcases List.mem_append.mp hv with hv | hv
      · exact .inl (hack v hv)
      · exact .inr (congrArg some (List.mem_singleton.mp hv).symm)
    · simp [Notify.offset?]

lemma step_accept (h : Inv s) (reports : List Offset) :
    Inv { s with connections := s.connections ++ [{ reports := reports }] } ∧
      Extends s { s with connections := s.connections ++ [{ reports := reports }] } := by
  refine ⟨⟨fun d hd => ?_, h.push, fun v hv => ?_⟩, le_rfl, fun i d hd => ?_⟩
  · rcases List.mem_append.mp hd with hd | hd
    · exact h.connected d hd
    · rw [List.mem_singleton.mp hd]
      exact ⟨decoding_accept reports, Nat.zero_le _, by simp, by simp [Notify.offset?], by simp⟩
  · obtain ⟨d, hd, hvd⟩ := h.source v hv
    exact ⟨d, List.mem_append_left _ hd, hvd⟩
  · refine ⟨d, ?_, List.prefix_rfl⟩
    rw [List.getElem?_append_left (List.getElem?_eq_some_iff.mp hd).1]
    exact hd

/-- **One step.** -/
lemma step_inv {a : Action} (h : Inv s) (hs : step s a = some s') : Inv s' ∧ Extends s s' := by
  cases a with
  | accept reports =>
    simp only [step, Option.some.injEq] at hs
    exact hs ▸ step_accept h reports
  | processReadEvent i =>
    obtain ⟨c, hc, hs⟩ := Option.bind_eq_some_iff.mp hs
    split at hs
    · obtain rfl := Option.some.inj hs
      obtain ⟨h1, h2⟩ := connected_processReadEvent (h.connected c (List.mem_of_getElem? hc))
      exact inv_set_idle h hc h1 h2
    · exact absurd hs (by simp)
  | read i n =>
    obtain ⟨c, hc, hs⟩ := Option.bind_eq_some_iff.mp hs
    unfold read at hs
    split at hs
    · next hcond =>
      obtain ⟨hidle, -, hpos, hn⟩ := hcond
      obtain rfl := Option.some.inj hs
      rw [length_reportBytes] at hn
      obtain ⟨h1, h2⟩ := connected_read (h.connected c (List.mem_of_getElem? hc)) hidle hpos hn
      exact inv_set_idle h hc h1 h2
    · exact absurd hs (by simp)
  | get i =>
    obtain ⟨c, hc, hs⟩ := Option.bind_eq_some_iff.mp hs
    have hcon := h.connected c (List.mem_of_getElem? hc)
    split at hs
    · next offset hn =>
      obtain rfl := Option.some.inj hs
      have hpend := hcon.pending
      have hnot := hcon.notified
      rw [hn] at hpend hnot
      refine inv_set_idle h hc ⟨hcon.decoding.setNotify _, hcon.position_le, hpend, hnot, ?_⟩
        List.prefix_rfl
      rintro offset' value ⟨⟩
      exact le_rfl
    · exact absurd hs (by simp)
  | compareAndSet i =>
    obtain ⟨c, hc, hs⟩ := Option.bind_eq_some_iff.mp hs
    split at hs
    · next offset value hn =>
      obtain rfl := Option.some.inj hs
      exact step_compareAndSet h hc hn
    · exact absurd hs (by simp)

lemma run_inv {as : List Action} (h : Inv s) (hr : run step s as = some s') :
    Inv s' ∧ Extends s s' := by
  induction as generalizing s with
  | nil =>
    simp only [run_nil, Option.some.injEq] at hr
    exact hr ▸ ⟨h, Extends.refl s⟩
  | cons a as ih =>
    obtain ⟨t, h1, h2⟩ := run_cons.mp hr
    obtain ⟨ht, hst⟩ := step_inv h h1
    obtain ⟨hs', hts'⟩ := ih ht h2
    exact ⟨hs', hst.trans hts'⟩

lemma inv_started : Inv HAService.started :=
  ⟨by simp [HAService.started], by simp [HAService.started], by simp [HAService.started]⟩

end Steps

/-- What is said of the connections and their maximum in a state. -/
structure Acknowledged (s : HAService) : Prop where
  /-- the latest of the reports that have been received as a whole -/
  ack : ∀ c ∈ s.connections, c.slaveAckOffset = (c.received.getLast?.map toLong).getD (-1)
  /-- every value there has been is such a report -/
  assigned : ∀ c ∈ s.connections, ∀ v ∈ c.assigned, ∃ o ∈ c.received, v = toLong o
  request : ∀ c ∈ s.connections, c.slaveRequestOffset = c.assigned.head?.getD (-1)
  push : s.push2SlaveMaxOffset.toInt = (s.acknowledged.map Int64.toInt).foldl max 0
  /-- what has been acknowledged has been assigned, and the other way round once the thread of
  the connection is through `notifyTransferSome` -/
  source : ∀ v ∈ s.acknowledged, ∃ c ∈ s.connections, v ∈ c.assigned
  done : ∀ c ∈ s.connections, c.notify = .idle → ∀ v ∈ c.assigned, v ∈ s.acknowledged

lemma Inv.acknowledged {s : HAService} (h : Inv s) : Acknowledged s where
  ack c hc := (h.connected c hc).decoding.ack
  assigned c hc := (h.connected c hc).decoding.assigned
  request c hc := (h.connected c hc).decoding.request
  push := h.push
  source := h.source
  done c hc hidle v hv := by
    simpa [hidle, Notify.offset?] using (h.connected c hc).pending v hv

/-- **The reports are decoded.** In every state a run reaches, each connection holds the latest of
its complete reports and the first value it read, and the maximum is that of 0 and all that has
been acknowledged; whatever happens next, the maximum does not decrease and the first value of a
connection stays. -/
theorem reports_are_decoded {before after : List Action} {s t : HAService}
    (hs : run step HAService.started before = some s) (ht : run step s after = some t) :
    Acknowledged s ∧ s.push2SlaveMaxOffset.toInt ≤ t.push2SlaveMaxOffset.toInt ∧
      ∀ (i : ℕ) (c : Connection), s.connections[i]? = some c →
        ∃ c' : Connection, t.connections[i]? = some c' ∧ c.assigned <+: c'.assigned ∧
          (c.assigned ≠ [] → c'.slaveRequestOffset = c.slaveRequestOffset) := by
  obtain ⟨hinv, -⟩ := run_inv inv_started hs
  obtain ⟨hinv', hext⟩ := run_inv hinv ht
  refine ⟨hinv.acknowledged, hext.push, fun i c hc => ?_⟩
  obtain ⟨c', hc', hpre⟩ := hext.assigned i c hc
  refine ⟨c', hc', hpre, fun hne => ?_⟩
  rw [hinv'.acknowledged.request c' (List.mem_of_getElem? hc'),
    hinv.acknowledged.request c (List.mem_of_getElem? hc)]
  obtain ⟨vs, hvs⟩ := hpre
  obtain ⟨v, l, hl⟩ := List.exists_cons_of_ne_nil hne
  rw [← hvs, hl]
  rfl

/-- Two slaves; the first report of one of them comes in two pieces, and the second one is
behind. -/
theorem reports_are_decoded_two_slaves :
    ∃ s t, run step HAService.started [.accept [5, 9], .accept [7], .read 0 3, .read 0 7,
        .get 0, .compareAndSet 0] = some s ∧
      run step s [.read 1 8, .get 1, .compareAndSet 1, .read 0 6, .get 0, .compareAndSet 0] =
        some t ∧
      Acknowledged s ∧ s.push2SlaveMaxOffset.toInt ≤ t.push2SlaveMaxOffset.toInt := by
  refine ⟨_, _, rfl, rfl, ?_⟩
  obtain ⟨h1, h2, -⟩ := @reports_are_decoded
    [.accept [5, 9], .accept [7], .read 0 3, .read 0 7, .get 0, .compareAndSet 0]
    [.read 1 8, .get 1, .compareAndSet 1, .read 0 6, .get 0, .compareAndSet 0] _ _ rfl rfl
  exact ⟨h1, h2⟩

end CloudMQ.HAConnection
