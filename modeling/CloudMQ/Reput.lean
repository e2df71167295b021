import CloudMQ.LogBytes
import CloudMQ.Tiling

/-!
Reput: a slave reads the messages back out of the log it receives and dispatches them, with
`ReputMessageService.doReput`.

What has arrived may end anywhere, inside a record too. The reader refuses a record that is cut
off, so the loop stops in front of it and finds it again when more of it has arrived. It also
refuses a record it cannot read as a whole, and then it stops there for ever.
-/

namespace CloudMQ.Reput

open CloudMQ.Buffer CloudMQ.Message CloudMQ.Record CloudMQ.Codec CloudMQ.Segment CloudMQ.Chain
open CloudMQ.Extents CloudMQ.CommitLog CloudMQ.Append CloudMQ.Agreement CloudMQ.Recover
open CloudMQ.Records CloudMQ.ValidPrefix CloudMQ.Tiling CloudMQ.LogBytes CloudMQ.Runs

/-- `rollNextFile` -/
def rollNextFile (mapedFileSize offset : ℕ) : ℕ := offset + mapedFileSize - offset % mapedFileSize

/-! ### The loop -/

section Loop

variable (check : Bytes → DispatchRequest × Bytes)

/-- What the inner loop came to: where it stands, what it dispatched, and `doNext`. -/
structure Pass where
  reputFromOffset : ℕ
  requests : List DispatchRequest
  doNext : Bool

def Pass.cons (d : DispatchRequest) (p : Pass) : Pass := { p with requests := d :: p.requests }

/-- The inner loop over a buffer of `size` bytes; `none` is a loop that has not ended yet. A size
below −1 is not looked at. -/
def reputBuffer (mapedFileSize size : ℕ) : ℕ → ℕ → Bytes → ℕ → Option Pass
  | 0, _, _, _ => none
  | fuel + 1, readSize, byteBuffer, reputFromOffset =>
    if readSize < size then
      let d := (check byteBuffer).1
      let rest := (check byteBuffer).2
      if 0 < d.msgSize.toInt then
        (reputBuffer mapedFileSize size fuel (readSize + d.msgSize.toInt.toNat) rest
          (reputFromOffset + d.msgSize.toInt.toNat)).map (Pass.cons d)
      else if d.msgSize = -1 then some ⟨reputFromOffset, [], false⟩
      else if d.msgSize = 0 then some ⟨rollNextFile mapedFileSize reputFromOffset, [], true⟩
      else reputBuffer mapedFileSize size fuel readSize rest reputFromOffset
    else some ⟨reputFromOffset, [], true⟩

/-- The outer loop: where it ends and what it dispatched. -/
def doReput (q : MapedFileQueue Bytes) : ℕ → ℕ → Option (ℕ × List DispatchRequest)
  | 0, _ => none
  | fuel + 1, reputFromOffset =>
    match getData q reputFromOffset (reputFromOffset = 0) with
    | none => some (reputFromOffset, [])
    | some result =>
      (reputBuffer check q.mapedFileSize result.byteBuffer.length (result.byteBuffer.length + 1) 0
          result.byteBuffer result.startOffset).bind fun p =>
        if p.doNext then
          (doReput q fuel p.reputFromOffset).map fun r => (r.1, p.requests ++ r.2)
        else some (p.reputFromOffset, p.requests)

end Loop

/-! ### Reading what may be cut off -/

section Cuts

variable {maxMessageSize : ℕ} {svc : Option ScheduleMessageService} {checkCRC readBody : Bool}
  {r : Rec}

/-- The check `doReput` makes: neither the body nor its CRC is looked at. -/
def reputCheck (maxMessageSize : ℕ) (svc : Option ScheduleMessageService) :
    Bytes → DispatchRequest × Bytes :=
  checkMessageAndReturnSize maxMessageSize svc false false

lemma readRecord_rec (hw : r.Written maxMessageSize) (hr : r.Readable svc) (rest : Bytes) :
    (readRecord (maxMessageSize + END_FILE_MIN_BLANK_LENGTH) svc checkCRC readBody).run
      (r.bytes ++ rest) = some (Rec.request svc r, rest) := by
  obtain ⟨tagsCode, htags⟩ := Option.isSome_iff_exists.mp (storedTagsCode_isSome.mpr hr.2)
  have hsize : recordSize r.message ≤ maxMessageSize + END_FILE_MIN_BLANK_LENGTH :=
    hw.size_le.trans (Nat.le_add_right _ _)
  rw [Rec.bytes, readRecord_append hw.bornHost hw.storeHost hsize hw.crc.bodyCRC_eq
    (bodyBytes_lt _), readText_append hr.1 hsize, htags, Rec.request, htags]
  rfl

lemma readRecord_whole (hw : r.Written maxMessageSize) (hr : r.Readable svc) :
    (readRecord (maxMessageSize + END_FILE_MIN_BLANK_LENGTH) svc checkCRC readBody).run r.bytes =
      some (Rec.request svc r, []) := by
  have h := @readRecord_rec maxMessageSize svc checkCRC readBody r hw hr []
  simpa only [List.append_nil] using h

lemma reputCheck_rec (hw : r.Written maxMessageSize) (hr : r.Readable svc) (rest : Bytes) :
    reputCheck maxMessageSize svc (r.bytes ++ rest) = (Rec.request svc r, rest) := by
  rw [reputCheck, checkMessageAndReturnSize, readRecord_rec hw hr]

/-- A record that is cut off is refused: the reader looks at all of it. -/
lemma reputCheck_cut (hw : r.Written maxMessageSize) (hr : r.Readable svc) {b : Bytes}
    (hb : b <+: r.bytes) (hlt : b.length < r.size) :
    (reputCheck maxMessageSize svc b).1.msgSize = -1 := by
  unfold reputCheck checkMessageAndReturnSize
  cases hrun : (readRecord (maxMessageSize + END_FILE_MIN_BLANK_LENGTH) svc false false).run b with
  | none => rfl
  | some out =>
    obtain ⟨d, rest⟩ := out
    obtain ⟨used, hused, hlocal⟩ := local_readRecord _ b d rest hrun
    obtain ⟨more, hmore⟩ := hb
    have hwhole := hlocal (rest ++ more)
    rw [← List.append_assoc, ← hused, hmore] at hwhole
    have hnil : more = [] := by
      have heq := hwhole.symm.trans (readRecord_whole hw hr)
      have h2 := congrArg Prod.snd (Option.some.inj heq)
      exact (List.append_eq_nil_iff.mp h2).2
    rw [hnil, List.append_nil] at hmore
    have := hw.length
    rw [← hmore] at this
    omega

/-- Fewer than eight bytes are refused. -/
lemma reputCheck_short {b : Bytes} (h : b.length < 8) :
    (reputCheck maxMessageSize svc b).1.msgSize = -1 := by
  unfold reputCheck checkMessageAndReturnSize
  cases hrun : (readRecord (maxMessageSize + END_FILE_MIN_BLANK_LENGTH) svc false false).run b with
  | none => rfl
  | some out =>
    obtain ⟨a, mid, h1, h2⟩ := Reader.run_bind_eq_some hrun
    obtain ⟨a', mid', h3, -⟩ := Reader.run_bind_eq_some h2
    obtain ⟨x, y, h4, h5⟩ := Reader.run_bind_eq_some h1
    obtain ⟨x', y', h6, -⟩ := Reader.run_bind_eq_some h3
    obtain ⟨h7, h8⟩ := getBytes_eq_some h4
    obtain ⟨h9, h10⟩ := getBytes_eq_some h6
    simp only [Reader.run_pure, Option.some.injEq, Prod.mk.injEq] at h5
    rw [h7, h5.2, h9] at h
    simp only [List.length_append] at h
    omega

/-- Eight bytes of a blank record are enough. -/
lemma reputCheck_blank {memory : ℕ → UInt8} {n : ℕ} {b : Bytes} (hb : b <+: blankBytes memory n)
    (h8 : 8 ≤ b.length) : (reputCheck maxMessageSize svc b).1.msgSize = 0 := by
  have hlen : (putInt (Int32.ofNat n) ++ putInt BlankMagicCode).length = 8 := by simp
  obtain ⟨rest, hrest⟩ : ∃ rest, b = putInt (Int32.ofNat n) ++ (putInt BlankMagicCode ++ rest) := by
    unfold blankBytes at hb
    have := List.prefix_of_prefix_length_le (List.prefix_append _ _) hb (by omega)
    obtain ⟨rest, hrest⟩ := this
    exact ⟨rest, by rw [← List.append_assoc]; exact hrest.symm⟩
  unfold reputCheck checkMessageAndReturnSize
  rw [hrest, readRecord, Reader.run_bind_of_some (getInt_putInt _ _),
    Reader.run_bind_of_some (getInt_putInt _ _), if_neg (by decide), if_pos rfl, Reader.run_pure]
  rfl

/-- The bytes that have arrived are whole records and a part of what follows them. -/
lemma cut_records {recs : List Rec} {tail v : Bytes}
    (hw : ∀ r ∈ recs, r.Written maxMessageSize) (hv : v <+: bytesOf recs ++ tail) :
    ∃ whole rest v', recs = whole ++ rest ∧ v = bytesOf whole ++ v' ∧
      (rest = [] ∧ v' <+: tail ∨
        ∃ r rest', rest = r :: rest' ∧ v' <+: r.bytes ∧ v'.length < r.size) := by
  induction recs generalizing v with
  | nil => exact ⟨[], [], v, rfl, rfl, .inl ⟨rfl, hv⟩⟩
  | cons r recs ih =>
    rw [bytesOf_cons, List.append_assoc] at hv
    have hlen := (hw r (by simp)).length
    by_cases hlt : v.length < r.size
    · refine ⟨[], r :: recs, v, rfl, rfl, .inr ⟨r, recs, rfl, ?_, hlt⟩⟩
      exact List.prefix_of_prefix_length_le hv (List.prefix_append _ _) (by omega)
    · obtain ⟨v₁, hv₁⟩ :=
        List.prefix_of_prefix_length_le (List.prefix_append r.bytes _) hv (by omega)
      rw [← hv₁, List.prefix_append_right_inj] at hv
      obtain ⟨whole, rest, v', h1, h2, h3⟩ := ih (fun r hr => hw r (List.mem_cons_of_mem _ hr)) hv
      refine ⟨r :: whole, rest, v', by rw [h1]; rfl, ?_, h3⟩
      rw [← hv₁, h2, bytesOf_cons, List.append_assoc]

end Cuts

/-! ### The inner loop -/

section Inner

variable {cfg : MessageStoreConfig} {svc : Option ScheduleMessageService}
  {mapedFileSize size readSize reputFromOffset : ℕ}

/-- The loop goes through whole records one by one. -/
lemma reputBuffer_recs {recs : List Rec} (hw : ∀ r ∈ recs, r.Written cfg.maxMessageSize)
    (hr : ∀ r ∈ recs, r.Readable svc) (hsize : readSize + sizes recs ≤ size) (n : ℕ)
    (tail : Bytes) :
    reputBuffer (reputCheck cfg.maxMessageSize svc) mapedFileSize size (n + recs.length) readSize
        (bytesOf recs ++ tail) reputFromOffset =
      (reputBuffer (reputCheck cfg.maxMessageSize svc) mapedFileSize size n
        (readSize + sizes recs) tail (reputFromOffset + sizes recs)).map fun p =>
          { p with requests := recs.map (Rec.request svc) ++ p.requests } := by
  induction recs generalizing readSize reputFromOffset with
  | nil => simp
  | cons r recs ih =>
    have hw' := hw r (by simp)
    have hcheck := reputCheck_rec hw' (hr r (by simp)) (bytesOf recs ++ tail)
    have hreq := @toInt_request cfg svc r hw'
    have hpos := r.size_pos
    rw [sizes_cons] at hsize ⊢
    rw [List.length_cons, ← Nat.add_assoc, bytesOf_cons, List.append_assoc, reputBuffer,
      if_pos (by omega), hcheck]
    simp only [hreq, Int.toNat_natCast]
    rw [if_pos (by omega), ih (fun r hr => hw r (List.mem_cons_of_mem _ hr))
      (fun r hr' => hr r (List.mem_cons_of_mem _ hr')) (by omega), Option.map_map,
      Nat.add_assoc, Nat.add_assoc]
    rfl

/-- The loop ends with the buffer. -/
lemma reputBuffer_done {tail : Bytes} (h : readSize = size) (n : ℕ) :
    reputBuffer (reputCheck cfg.maxMessageSize svc) mapedFileSize size (n + 1) readSize tail
      reputFromOffset = some ⟨reputFromOffset, [], true⟩ := by
  rw [reputBuffer, if_neg (by omega)]

/-- The loop ends in front of something it refuses. -/
lemma reputBuffer_refused {tail : Bytes} (hlt : readSize < size)
    (h : (reputCheck cfg.maxMessageSize svc tail).1.msgSize = -1) (n : ℕ) :
    reputBuffer (reputCheck cfg.maxMessageSize svc) mapedFileSize size (n + 1) readSize tail
      reputFromOffset = some ⟨reputFromOffset, [], false⟩ := by
  rw [reputBuffer, if_pos hlt]
  simp only [h]
  rfl

/-- The loop leaves the file at a blank record. -/
lemma reputBuffer_blank {tail : Bytes} (hlt : readSize < size)
    (h : (reputCheck cfg.maxMessageSize svc tail).1.msgSize = 0) (n : ℕ) :
    reputBuffer (reputCheck cfg.maxMessageSize svc) mapedFileSize size (n + 1) readSize tail
      reputFromOffset = some ⟨rollNextFile mapedFileSize reputFromOffset, [], true⟩ := by
  rw [reputBuffer, if_pos hlt]
  simp only [h]
  rfl

/-- The inner loop over what has arrived of some records and of what follows them. -/
lemma reputBuffer_arrived {recs : List Rec} {tail v : Bytes} {o : ℕ}
    (hw : ∀ r ∈ recs, r.Written cfg.maxMessageSize) (hr : ∀ r ∈ recs, r.Readable svc)
    (htail : tail = [] ∨ ∃ memory n, tail = blankBytes memory n)
    (hv : v <+: bytesOf recs ++ tail) :
    ∃ whole rest k p, recs = whole ++ rest ∧ v.length = sizes whole + k ∧
      reputBuffer (reputCheck cfg.maxMessageSize svc) mapedFileSize v.length (v.length + 1) 0 v o =
        some p ∧ p.requests = whole.map (Rec.request svc) ∧
      (k = 0 ∧ p.reputFromOffset = o + sizes whole ∧ p.doNext = true ∨
        p.reputFromOffset = o + sizes whole ∧ p.doNext = false ∧
          (∀ r ∈ rest.head?, k < r.size) ∧ (rest = [] → k < 8) ∨
        rest = [] ∧ p.reputFromOffset = rollNextFile mapedFileSize (o + sizes whole) ∧
          p.doNext = true) := by
  obtain ⟨whole, rest, v', hrecs, rfl, hcut⟩ := cut_records hw hv
  have hw' : ∀ r ∈ whole, r.Written cfg.maxMessageSize := fun r hr => hw r (by simp [hrecs, hr])
  have hr' : ∀ r ∈ whole, r.Readable svc := fun r hr' => hr r (by simp [hrecs, hr'])
  have hlen : (bytesOf whole ++ v').length = sizes whole + v'.length := by
    rw [List.length_append, length_bytesOf hw']
  have hcount : whole.length ≤ sizes whole := by
    rw [← List.length_map (f := Rec.size)]
    refine List.length_le_sum_of_one_le _ fun n hn => ?_
    obtain ⟨r, -, rfl⟩ := List.mem_map.mp hn
    exact r.size_pos
  -- one turn for every record and one for the end
  obtain ⟨n, hn⟩ : ∃ n, (bytesOf whole ++ v').length + 1 = n + 1 + whole.length :=
    ⟨(bytesOf whole ++ v').length - whole.length, by omega⟩
  have hloop := @reputBuffer_recs cfg svc mapedFileSize (bytesOf whole ++ v').length 0 o whole hw'
    hr' (by omega) (n + 1) v'
  rw [← hn, Nat.zero_add] at hloop
  by_cases hnil : v' = []
  · have hsize : sizes whole = (bytesOf whole ++ v').length := by rw [hlen, hnil]; simp
    rw [reputBuffer_done hsize] at hloop
    exact ⟨whole, rest, v'.length, _, hrecs, hlen, hloop, by simp,
      .inl ⟨by simp [hnil], rfl, rfl⟩⟩
  · have hlt : sizes whole < (bytesOf whole ++ v').length := by
      have := List.length_pos_iff.mpr hnil
      omega
    rcases hcut with ⟨rfl, htail'⟩ | ⟨r, rest', rfl, hv', hlt'⟩
    · by_cases h8 : v'.length < 8
      · rw [reputBuffer_refused hlt (reputCheck_short h8)] at hloop
        exact ⟨whole, [], v'.length, _, hrecs, hlen, hloop, by simp,
          .inr (.inl ⟨rfl, rfl, by simp, fun _ => h8⟩)⟩
      · rcases htail with rfl | ⟨memory, k, rfl⟩
        · exact absurd (List.prefix_nil.mp htail') hnil
        · rw [reputBuffer_blank hlt (reputCheck_blank htail' (by omega))] at hloop
          exact ⟨whole, [], v'.length, _, hrecs, hlen, hloop, by simp, .inr (.inr ⟨rfl, rfl, rfl⟩)⟩
    · rw [reputBuffer_refused hlt
        (reputCheck_cut (hw r (by simp [hrecs])) (hr r (by simp [hrecs])) hv' hlt')] at hloop
      exact ⟨whole, r :: rest', v'.length, _, hrecs, hlen, hloop, by simp,
        .inr (.inl ⟨rfl, rfl, by simpa using hlt', by simp⟩)⟩

end Inner

/-! ### The log, file by file -/

/-- A file of the log and the records in it. -/
structure Seg where
  file : MapedFile Bytes
  recs : List Rec

abbrev Seg.start (g : Seg) : ℕ := g.file.fileFromOffset

/-- The records of a list of files, in order. -/
def messages (segs : List Seg) : List Rec := segs.flatMap Seg.recs

@[simp] lemma messages_append (a b : List Seg) : messages (a ++ b) = messages a ++ messages b :=
  List.flatMap_append

@[simp] lemma messages_cons (g : Seg) (segs : List Seg) :
    messages (g :: segs) = g.recs ++ messages segs := List.flatMap_cons

@[simp] lemma messages_nil : messages [] = [] := rfl

/-- What the file holds: its records, and a blank record behind them or room for one. -/
structure Holds (maxMessageSize size : ℕ) (g : Seg) : Prop where
  written : ∀ r ∈ g.recs, r.Written maxMessageSize
  bytes : (∃ memory n, g.file.mappedByteBuffer = bytesOf g.recs ++ blankBytes memory n ∧ 8 ≤ n ∧
      g.file.wrotePostion = size) ∨
    ∃ tail, g.file.mappedByteBuffer = bytesOf g.recs ++ tail ∧ 8 ≤ tail.length ∧
      g.file.wrotePostion = sizes g.recs

/-- A log that is tiled by records and blank records. -/
structure TiledBy (maxMessageSize : ℕ) (q : MapedFileQueue Bytes) (segs : List Seg) : Prop where
  chained : Chained q
  mapped : Mapped q
  files : segs.map Seg.file = q.mapedFiles
  holds : ∀ g ∈ segs, Holds maxMessageSize q.mapedFileSize g

/-- The offset is the start of what follows the given records: a record, a blank record, or the
next file. -/
inductive At (size : ℕ) (segs : List Seg) : ℕ → List Rec → Prop
  | inside {before after : List Seg} {g : Seg} {a b : List Rec}
      (h : segs = before ++ g :: after) (hrecs : g.recs = a ++ b) :
      At size segs (g.start + sizes a) (messages before ++ a)
  | behind {before : List Seg} {g : Seg} (h : segs = before ++ [g]) :
      At size segs (g.start + size) (messages segs)

lemma At.prefix_messages {size o : ℕ} {segs : List Seg} {done : List Rec}
    (h : At size segs o done) : done <+: messages segs := by
  cases h with
  | @inside before after g a b h hrecs =>
    rw [h, messages_append, messages_cons, hrecs, List.append_assoc]
    exact ⟨b ++ messages after, by simp [List.append_assoc]⟩
  | behind h => exact List.prefix_rfl

lemma At.min_le {size o : ℕ} {segs : List Seg} {done : List Rec} (h : At size segs o done)
    {min : ℤ} (hmin : ∀ g ∈ segs, min ≤ g.start) : min ≤ o := by
  cases h with
  | @inside before after g a b h hrecs =>
    have := hmin g (by rw [h]; simp)
    omega
  | @behind before g h =>
    have := hmin g (by rw [h]; simp)
    omega

section Segs

variable {maxMessageSize size : ℕ} {q : MapedFileQueue Bytes} {segs : List Seg} {g : Seg}

lemma Holds.room (h : Holds maxMessageSize size g) (hm : g.file.mappedByteBuffer.length = size) :
    sizes g.recs + 8 ≤ size := by
  have hlen := length_bytesOf h.written
  rcases h.bytes with ⟨memory, n, hbytes, h8, -⟩ | ⟨tail, hbytes, h8, -⟩
  · rw [hbytes, List.length_append, hlen, length_blankBytes memory h8] at hm
    omega
  · rw [hbytes, List.length_append, hlen] at hm
    omega

/-- The written part of a file behind some of its records. -/
lemma Holds.drop (h : Holds maxMessageSize size g) (hm : g.file.mappedByteBuffer.length = size)
    {a b : List Rec} (hrecs : g.recs = a ++ b) :
    ∃ tail, (LogBytes.written g.file).drop (sizes a) = bytesOf b ++ tail ∧
      (tail = [] ∨ ∃ memory n, tail = blankBytes memory n) := by
  have hlen := length_bytesOf h.written
  have hlena : (bytesOf a).length = sizes a :=
    length_bytesOf fun r hr => h.written r (by rw [hrecs]; simp [hr])
  have hdrop : ∀ tail, (bytesOf g.recs ++ tail).drop (sizes a) = bytesOf b ++ tail := by
    intro tail
    rw [hrecs, bytesOf_append, List.append_assoc]
    exact List.drop_left' hlena
  rcases h.bytes with ⟨memory, n, hbytes, h8, hwrote⟩ | ⟨tail, hbytes, h8, hwrote⟩
  · refine ⟨blankBytes memory n, ?_, .inr ⟨memory, n, rfl⟩⟩
    rw [LogBytes.written, hwrote, ← hm, List.take_length, hbytes, hdrop]
  · refine ⟨[], ?_, .inl rfl⟩
    rw [LogBytes.written, hbytes, hwrote, ← hlen, List.take_left,
      ← List.append_nil (bytesOf g.recs), hdrop]

lemma TiledBy.length (h : TiledBy maxMessageSize q segs) (hg : g ∈ segs) :
    g.file.mappedByteBuffer.length = q.mapedFileSize :=
  h.mapped g.file (by rw [← h.files]; exact List.mem_map_of_mem hg)

lemma TiledBy.mem_files (h : TiledBy maxMessageSize q segs) (hg : g ∈ segs) :
    g.file ∈ q.mapedFiles := by
  rw [← h.files]
  exact List.mem_map_of_mem hg

/-- Two files next to each other. -/
lemma TiledBy.start_succ (h : TiledBy maxMessageSize q segs) {rest before after : List Seg}
    {g' : Seg} (hrest : rest <:+ segs) (hs : rest = before ++ g :: g' :: after) :
    g'.start = g.start + q.mapedFileSize := by
  have hinfix : (rest.map Seg.file).map extent <:+: extents q := by
    rw [extents, ← h.files]
    exact ((hrest.map Seg.file).map extent).isInfix
  have hchain := h.chained.part hinfix
  rw [hs, List.map_append, List.map_append, List.map_cons, List.map_cons, List.map_cons,
    List.map_cons] at hchain
  have := hchain.chain.right_of_append
  exact (List.isChain_cons_cons.mp this).1.2

/-- No byte of the log lies behind its last file. -/
lemma TiledBy.max_le (h : TiledBy maxMessageSize q segs) {rest before : List Seg}
    (hrest : rest <:+ segs) (hs : rest = before ++ [g]) :
    q.getMaxOffset ≤ g.start + q.mapedFileSize := by
  have hlast : q.mapedFiles.getLast? = some g.file := by
    obtain ⟨front, hfront⟩ := hrest
    rw [← h.files, ← hfront, hs, List.map_append, List.map_append]
    simp
  have := wrote_le h.chained (List.mem_of_getLast? hlast)
  rw [MapedFileQueue.getMaxOffset, hlast]
  exact Nat.add_le_add_left this g.start

/-- Two files of a log lie one behind the other, unless they are the same. -/
lemma TiledBy.cases (h : TiledBy maxMessageSize q segs) {g' : Seg} (hg : g ∈ segs)
    (hg' : g' ∈ segs) : g' = g ∨ g'.start + q.mapedFileSize ≤ g.start ∨
      g.start + q.mapedFileSize ≤ g'.start := by
  obtain ⟨i, hi⟩ := List.getElem?_of_mem hg
  obtain ⟨j, hj⟩ := List.getElem?_of_mem hg'
  have hfile : ∀ {k : ℕ} {g : Seg}, segs[k]? = some g → q.mapedFiles[k]? = some g.file := by
    intro k g hk
    rw [← h.files, List.getElem?_map, hk]
    rfl
  rcases lt_trichotomy i j with hij | rfl | hij
  · exact .inr (.inr (end_le_start h.chained hij (hfile hi) (hfile hj)))
  · rw [hi, Option.some.injEq] at hj
    exact .inl hj.symm
  · exact .inr (.inl (end_le_start h.chained hij (hfile hj) (hfile hi)))

lemma place_append (start : ℕ) (a b : List Rec) :
    place start (a ++ b) = place start a ++ place (start + sizes a) b := by
  induction a generalizing start with
  | nil => rfl
  | cons r a ih => simp [place, ih, Nat.add_assoc]

lemma place_bounds {start : ℕ} {recs : List Rec} {x : ℕ × Rec} (h : x ∈ place start recs) :
    start ≤ x.1 ∧ x.1 + x.2.size ≤ start + sizes recs := by
  induction recs generalizing start with
  | nil => simp [place] at h
  | cons r recs ih =>
    rw [sizes_cons]
    rcases List.mem_cons.mp h with rfl | h
    · simp only
      omega
    · obtain ⟨h1, h2⟩ := ih h
      omega

end Segs

/-- The records of a list of files, each with the offset it stands at. -/
def placed (segs : List Seg) : List (ℕ × Rec) := segs.flatMap fun g => place g.start g.recs

section Placed

variable {maxMessageSize : ℕ} {q : MapedFileQueue Bytes} {segs rest : List Seg}

lemma map_snd_place (start : ℕ) (recs : List Rec) : (place start recs).map Prod.snd = recs := by
  induction recs generalizing start with
  | nil => rfl
  | cons r recs ih => rw [place, List.map_cons, ih]

lemma map_snd_placed (segs : List Seg) : (placed segs).map Prod.snd = messages segs := by
  rw [placed, List.map_flatMap, messages]
  exact congrArg (fun f => List.flatMap f segs) (funext fun g => map_snd_place g.start g.recs)

/-- Files that stand before another one end before it begins. -/
lemma TiledBy.end_le (h : TiledBy maxMessageSize q segs) (hrest : rest <:+ segs)
    {before after : List Seg} {g g' : Seg} (hs : rest = before ++ g :: after) (hg' : g' ∈ before) :
    g'.start + q.mapedFileSize ≤ g.start := by
  obtain ⟨front, hfront⟩ := hrest
  obtain ⟨i, hi⟩ := List.getElem?_of_mem (List.mem_append_right front hg')
  have hlt := (List.getElem?_eq_some_iff.mp hi).1
  have hsegs : segs = (front ++ before) ++ g :: after := by rw [← hfront, hs, List.append_assoc]
  refine end_le_start h.chained hlt (f := g'.file) (g := g.file) ?_ ?_
  · rw [← h.files, List.getElem?_map, hsegs, List.getElem?_append_left hlt, hi]
    rfl
  · rw [← h.files, List.getElem?_map, hsegs, List.getElem?_append_right le_rfl, Nat.sub_self]
    rfl

/-- Every record of a file begins before the file ends. -/
lemma TiledBy.start_lt (h : TiledBy maxMessageSize q segs) {g : Seg} (hg : g ∈ segs)
    {x : ℕ × Rec} (hx : x ∈ place g.start g.recs) :
    g.start ≤ x.1 ∧ x.1 < g.start + q.mapedFileSize := by
  have hroom := (h.holds g hg).room (h.length hg)
  have := place_bounds hx
  have := x.2.size_pos
  omega

/-- The records that were gone through are those that begin before the offset. -/
lemma At.eq_filter (h : TiledBy maxMessageSize q segs) (hrest : rest <:+ segs) {o : ℕ}
    {done : List Rec} (hat : At q.mapedFileSize rest o done) :
    done = ((placed rest).filter fun x => x.1 < o).map Prod.snd := by
  cases hat with
  | @inside before after g a b hs hrecs =>
    have hg : g ∈ segs := hrest.subset (by rw [hs]; simp)
    have hbefore : (placed before).filter (fun x => x.1 < g.start + sizes a) = placed before := by
      refine List.filter_eq_self.mpr fun x hx => decide_eq_true ?_
      obtain ⟨g', hg', hx⟩ := List.mem_flatMap.mp hx
      have := h.end_le hrest hs hg'
      have := h.start_lt (hrest.subset (by rw [hs]; simp [hg'])) hx
      omega
    have ha : (place g.start a).filter (fun x => x.1 < g.start + sizes a) = place g.start a := by
      refine List.filter_eq_self.mpr fun x hx => decide_eq_true ?_
      have := place_bounds hx
      have := x.2.size_pos
      omega
    have hb : (place (g.start + sizes a) b).filter (fun x => x.1 < g.start + sizes a) = [] := by
      refine List.filter_eq_nil_iff.mpr fun x hx => ?_
      have := place_bounds hx
      simpa using this.1
    have hafter : (placed after).filter (fun x => x.1 < g.start + sizes a) = [] := by
      refine List.filter_eq_nil_iff.mpr fun x hx => ?_
      obtain ⟨g', hg', hx'⟩ := List.mem_flatMap.mp hx
      obtain ⟨mid, rear, rfl⟩ := List.append_of_mem hg'
      have hs' : rest = (before ++ g :: mid) ++ g' :: rear := by rw [hs]; simp
      have := h.end_le hrest hs' (show g ∈ before ++ g :: mid by simp)
      have := h.start_lt (hrest.subset (by rw [hs]; simp)) hx'
      have hroom := (h.holds g hg).room (h.length hg)
      rw [hrecs, sizes_append] at hroom
      simp only [decide_eq_true_eq, not_lt]
      omega
    rw [hs, placed, List.flatMap_append, List.flatMap_cons, hrecs, place_append,
      List.filter_append, List.filter_append, List.filter_append]
    change _ = (List.filter _ (placed before) ++ (_ ++ _ ++ List.filter _ (placed after))).map _
    rw [hbefore, ha, hb, hafter, List.append_nil, List.append_nil, List.map_append,
      map_snd_placed, map_snd_place]
  | @behind before g hs =>
    rw [List.filter_eq_self.mpr, map_snd_placed]
    intro x hx
    obtain ⟨g', hg', hx⟩ := List.mem_flatMap.mp hx
    have hlt := h.start_lt (hrest.subset hg') hx
    refine decide_eq_true ?_
    rw [hs] at hg'
    rcases List.mem_append.mp hg' with hg' | hg'
    · have := h.end_le hrest hs hg'
      omega
    · rw [List.mem_singleton.mp hg'] at hlt
      exact hlt.2

end Placed

/-! ### One run of the loop -/

/-- The log of the slave is a copy of a part of the log. -/
structure Copy (log q : MapedFileQueue Bytes) : Prop where
  chained : Chained q
  mapped : Mapped q
  size_eq : q.mapedFileSize = log.mapedFileSize
  available : ∀ f ∈ q.mapedFiles, f.available
  agrees : Agrees q log

/-- Every record that lies within the log, up to `max`, lies before the offset. -/
def Complete (segs : List Seg) (max o : ℕ) : Prop :=
  ∀ g ∈ segs, ∀ x ∈ place g.start g.recs, x.1 + x.2.size ≤ max → x.1 < o

lemma complete_of_le {segs : List Seg} {max o : ℕ} (h : max ≤ o) : Complete segs max o := by
  intro g _ x _ hle
  have := x.2.size_pos
  omega

section Outer

variable {cfg : MessageStoreConfig} {svc : Option ScheduleMessageService}
  {log q : MapedFileQueue Bytes} {segs rest : List Seg} {o : ℕ} {done : List Rec}

/-- The file of the slave that has the offset, when there is something to read at it. -/
lemma file_at (htiled : TiledBy cfg.maxMessageSize log segs) (hcopy : Copy log q) {g : Seg}
    (hg : g ∈ segs) {f : MapedFile Bytes} (hf : f ∈ q.mapedFiles) (hle : f.fileFromOffset ≤ o)
    (hlt : o < f.fileFromOffset + f.wrotePostion) (hle' : g.start ≤ o)
    (hlt' : o < g.start + log.mapedFileSize) :
    f.fileFromOffset = g.start ∧ written f <+: written g.file := by
  have hwrote := wrote_le hcopy.chained hf
  have h1 := mod_eq_sub hcopy.chained hf hle (by omega)
  have h2 := mod_eq_sub htiled.chained (htiled.mem_files hg) hle' hlt'
  rw [hcopy.size_eq] at h1
  have hfrom : f.fileFromOffset = g.start := by
    change o % _ = o - g.start at h2
    omega
  exact ⟨hfrom, written_prefix hcopy.chained hcopy.mapped htiled.chained hcopy.agrees hf
    (htiled.mem_files hg) hcopy.size_eq.symm hfrom.symm⟩

lemma rollNextFile_eq {size start n : ℕ} (hdvd : size ∣ start) (hlt : n < size) :
    rollNextFile size (start + n) = start + size := by
  obtain ⟨k, rfl⟩ := hdvd
  rw [rollNextFile, Nat.mul_add_mod, Nat.mod_eq_of_lt hlt]
  omega

/-- **One turn of the outer loop.** -/
lemma pass (htiled : TiledBy cfg.maxMessageSize log segs)
    (hread : ∀ r ∈ messages segs, r.Readable svc) (hcopy : Copy log q) (hrest : rest <:+ segs)
    (hat : At log.mapedFileSize rest o done) (hmin : q.getMinOffset ≤ o)
    {result : SelectMapedBufferResult} (hget : getData q o (o = 0) = some result) :
    result.startOffset = o ∧ ∃ p new,
      reputBuffer (reputCheck cfg.maxMessageSize svc) q.mapedFileSize result.byteBuffer.length
        (result.byteBuffer.length + 1) 0 result.byteBuffer o = some p ∧
      p.requests = new.map (Rec.request svc) ∧
      At log.mapedFileSize rest p.reputFromOffset (done ++ new) ∧
      (p.doNext = true → o < p.reputFromOffset) ∧
      (p.doNext = false → Complete rest q.getMaxOffset p.reputFromOffset) := by
  obtain ⟨f, hf, hle, hlt, rfl⟩ :=
    getData_eq_some hcopy.chained (fun hzero => by rw [hzero] at hmin; exact hmin) hget
  refine ⟨rfl, ?_⟩
  have hlenf := length_written hcopy.chained hcopy.mapped hf
  cases hat with
  | @behind before g h =>
    -- the log has no byte there
    obtain ⟨b, hb⟩ : ∃ b, byteAt q (g.start + log.mapedFileSize) = some b :=
      ⟨_, (byteAt_eq_some_iff hcopy.chained hcopy.mapped).mpr
        ⟨f, hf, hle, List.getElem?_eq_getElem (by omega)⟩⟩
    have h1 := byteAt_lt htiled.chained htiled.mapped (hcopy.agrees _ b hb)
    have h2 := htiled.max_le hrest h
    omega
  | @inside before after g a b h hrecs =>
    have hg : g ∈ segs := hrest.subset (by rw [h]; simp)
    have hholds := htiled.holds g hg
    have hroom := hholds.room (htiled.length hg)
    rw [hrecs, sizes_append] at hroom
    obtain ⟨hfrom, hpre⟩ := file_at htiled hcopy hg hf hle hlt (Nat.le_add_right _ _)
      (by have := hroom; omega)
    rw [hfrom] at hle hlt
    simp only [hfrom, Nat.add_sub_cancel_left]
    obtain ⟨tail, hdrop, htail⟩ := hholds.drop (htiled.length hg) hrecs
    have hv : (written f).drop (sizes a) <+: bytesOf b ++ tail := hdrop ▸ hpre.drop (sizes a)
    have hmem : ∀ r ∈ b, r ∈ g.recs := fun r hr => by rw [hrecs]; simp [hr]
    obtain ⟨whole, left, k, p, rfl, hlen, hloop, hreq, hend⟩ :=
      @reputBuffer_arrived cfg svc q.mapedFileSize b tail _ (g.start + sizes a)
        (fun r hr => hholds.written r (hmem r hr))
        (fun r hr => hread r (List.mem_flatMap.mpr ⟨g, hg, hmem r hr⟩)) htail hv
    rw [List.length_drop, hlenf] at hlen
    rw [sizes_append] at hroom
    refine ⟨p, whole, hloop, hreq, ?_⟩
    have hinside : At log.mapedFileSize rest (g.start + sizes a + sizes whole)
        (messages before ++ a ++ whole) := by
      rw [Nat.add_assoc, ← sizes_append, List.append_assoc]
      exact .inside h (by rw [hrecs, List.append_assoc])
    rcases hend with ⟨hk, hp, hnext⟩ | ⟨hp, hnext, hcut, hblank⟩ | ⟨hleft, hp, hnext⟩
    · rw [hp]
      exact ⟨hinside, fun _ => by omega, fun hfalse => absurd (hnext.symm.trans hfalse) (by simp)⟩
    · rw [hp]
      refine ⟨hinside, fun htrue => absurd (hnext.symm.trans htrue) (by simp), fun _ => ?_⟩
      have hmax := max_of_not_full hcopy.chained hf (by
        rw [hcopy.size_eq]
        cases left with
        | nil => have := hblank rfl; simp only [sizes_nil] at hroom; omega
        | cons r left => have := hcut r rfl; rw [sizes_cons] at hroom; omega)
      intro g' hg' x hx hend
      have hroom' := (htiled.holds g' (hrest.subset hg')).room (htiled.length (hrest.subset hg'))
      have hbounds := place_bounds hx
      have hpos := x.2.size_pos
      have hwrote := wrote_le hcopy.chained hf
      rw [hcopy.size_eq] at hwrote
      rcases htiled.cases hg (hrest.subset hg') with rfl | hcase | hcase
      · rw [hrecs, ← List.append_assoc, place_append] at hx
        rcases List.mem_append.mp hx with hx | hx
        · have := place_bounds hx
          rw [sizes_append] at this
          omega
        · cases left with
          | nil => simp [place] at hx
          | cons r left =>
            have hr := hcut r rfl
            rw [sizes_append, place] at hx
            rcases List.mem_cons.mp hx with rfl | hx
            · simp only at hend
              omega
            · have := place_bounds hx
              omega
      · omega
      · omega
    · rw [hp]
      have hdvd : log.mapedFileSize ∣ g.start :=
        htiled.chained.aligned (extent g.file) (List.mem_map_of_mem (htiled.mem_files hg))
      subst hleft
      rw [Nat.add_assoc, hcopy.size_eq, rollNextFile_eq hdvd (by omega)]
      refine ⟨?_, fun _ => by omega, fun hfalse => absurd (hnext.symm.trans hfalse) (by simp)⟩
      rw [List.append_nil] at hrecs
      cases after with
      | nil =>
        have := @At.behind log.mapedFileSize rest before g h
        rwa [h, messages_append, messages_cons, messages_nil, List.append_nil, hrecs, ← h,
          ← List.append_assoc] at this
      | cons g' after =>
        have hnext := htiled.start_succ hrest h
        have := @At.inside log.mapedFileSize rest (before ++ [g]) after g' [] g'.recs
          (by rw [h]; simp) rfl
        rwa [sizes_nil, Nat.add_zero, hnext, List.append_nil, messages_append, messages_cons,
          messages_nil, List.append_nil, hrecs, ← List.append_assoc] at this

/-- There is nothing to read: the loop ends at once. -/
lemma doReput_none {check : Bytes → DispatchRequest × Bytes}
    (hget : getData q o (o = 0) = none) {fuel : ℕ} (hfuel : fuel ≠ 0) :
    doReput check q fuel o = some (o, []) := by
  obtain ⟨fuel, rfl⟩ := Nat.exists_eq_succ_of_ne_zero hfuel
  rw [doReput, hget]

/-- **One run of the loop.** It ends, whatever the fuel is beyond some bound, having dispatched
the records up to some point, and all that lie within the log. -/
lemma doReput_spec (htiled : TiledBy cfg.maxMessageSize log segs)
    (hread : ∀ r ∈ messages segs, r.Readable svc) (hcopy : Copy log q) (hrest : rest <:+ segs)
    (n : ℕ) (hn : q.getMaxOffset - o < n) (hat : At log.mapedFileSize rest o done)
    (hmin : q.getMinOffset ≤ o) :
    ∃ o' new, (∀ fuel, n ≤ fuel → doReput (reputCheck cfg.maxMessageSize svc) q fuel o =
        some (o', new.map (Rec.request svc))) ∧
      At log.mapedFileSize rest o' (done ++ new) ∧ Complete rest q.getMaxOffset o' := by
  induction n generalizing o done with
  | zero => omega
  | succ n ih =>
    cases hget : getData q o (o = 0) with
    | none =>
      exact ⟨o, [], fun fuel hfuel => doReput_none hget (by omega), by rwa [List.append_nil],
        complete_of_le (max_le_of_getData hcopy.chained hcopy.available hmin hget)⟩
    | some result =>
      obtain ⟨hstart, p, new, hloop, hreq, hat', hmore, hstop⟩ :=
        pass htiled hread hcopy hrest hat hmin hget
      have hturn : ∀ fuel, doReput (reputCheck cfg.maxMessageSize svc) q (fuel + 1) o =
          if p.doNext then (doReput (reputCheck cfg.maxMessageSize svc) q fuel
            p.reputFromOffset).map fun r => (r.1, p.requests ++ r.2)
          else some (p.reputFromOffset, p.requests) := by
        intro fuel
        rw [doReput, hget]
        simp only [hstart, hloop, Option.bind_some]
      cases hnext : p.doNext with
      | false =>
        refine ⟨p.reputFromOffset, new, fun fuel hfuel => ?_, hat', hstop hnext⟩
        obtain ⟨fuel, rfl⟩ := Nat.exists_eq_succ_of_ne_zero (by omega : fuel ≠ 0)
        rw [Nat.succ_eq_add_one, hturn, hnext, if_neg (by simp), hreq]
      | true =>
        have hlt := hmore hnext
        have hread' := getData_lt_max hcopy.chained hmin hget
        obtain ⟨o', new', h1, h2, h3⟩ := ih (by omega) hat' (by omega)
        refine ⟨o', new ++ new', fun fuel hfuel => ?_, by rwa [← List.append_assoc], h3⟩
        obtain ⟨fuel, rfl⟩ := Nat.exists_eq_succ_of_ne_zero (by omega : fuel ≠ 0)
        rw [Nat.succ_eq_add_one, hturn, hnext, if_pos rfl, h1 fuel (by omega), hreq,
          List.map_append]
        rfl

/-- More fuel changes nothing. -/
lemma doReput_mono {check : Bytes → DispatchRequest × Bytes} {fuel fuel' : ℕ}
    {r : ℕ × List DispatchRequest} (h : doReput check q fuel o = some r) (hle : fuel ≤ fuel') :
    doReput check q fuel' o = some r := by
  induction fuel generalizing fuel' o r with
  | zero => simp [doReput] at h
  | succ fuel ih =>
    obtain ⟨fuel', rfl⟩ := Nat.exists_eq_succ_of_ne_zero (by omega : fuel' ≠ 0)
    rw [doReput] at h ⊢
    split at h
    · exact h
    · obtain ⟨p, hp, h⟩ := Option.bind_eq_some_iff.mp h
      rw [hp, Option.bind_some]
      split at h
      · next hnext =>
        obtain ⟨r', hr', rfl⟩ := Option.map_eq_some_iff.mp h
        rw [if_pos hnext, ih hr' (by omega), Option.map_some]
      · next hnext => rw [if_neg hnext, h]

end Outer

/-! ### A log that grows -/

/-- The files of the log from an offset on. -/
def segsFrom (min : ℤ) (segs : List Seg) : List Seg := segs.filter fun g => min ≤ g.start

/-- The slave: its log, where it reads on from, and what it has dispatched. -/
structure Slave where
  commitLog : MapedFileQueue Bytes
  reputFromOffset : ℕ
  dispatched : List DispatchRequest

inductive Action
  /-- something arrives -/
  | appendToCommitLog (fresh : Option (ℕ → UInt8)) (startOffset : ℕ) (data : Bytes)
  /-- a run of `doReput` that takes at most so many turns -/
  | doReput (fuel : ℕ)

def step (check : Bytes → DispatchRequest × Bytes) (s : Slave) : Action → Option Slave
  | .appendToCommitLog fresh startOffset data =>
    some { s with commitLog := (appendData fresh startOffset data s.commitLog).1 }
  | .doReput fuel =>
    (Reput.doReput check s.commitLog fuel s.reputFromOffset).map fun r =>
      { s with reputFromOffset := r.1, dispatched := s.dispatched ++ r.2 }

/-- What arrives belongs to the log. -/
def Received (log : MapedFileQueue Bytes) (s : Slave) : Action → Prop
  | .appendToCommitLog fresh startOffset data =>
    Agrees (appendData fresh startOffset data s.commitLog).1 log
  | .doReput _ => True

/-- Where the slave stands in the log after some records: at its beginning, with nothing
dispatched, or behind the records. -/
def Stands (log : MapedFileQueue Bytes) (segs : List Seg) (s : Slave) (done : List Rec) : Prop :=
  s.reputFromOffset = 0 ∧ done = [] ∨
    s.commitLog.mapedFiles ≠ [] ∧
      At log.mapedFileSize (segsFrom s.commitLog.getMinOffset segs) s.reputFromOffset done

section Growing

variable {cfg : MessageStoreConfig} {svc : Option ScheduleMessageService}
  {log q : MapedFileQueue Bytes} {segs : List Seg} {s s' : Slave} {before done : List Rec}

lemma segsFrom_suffix (htiled : TiledBy cfg.maxMessageSize log segs) (min : ℤ) :
    segsFrom min segs <:+ segs := by
  have hsub : ∀ segs', segs' <:+ segs → segsFrom min segs' <:+ segs' := by
    intro segs' hs
    induction segs' with
    | nil => exact List.suffix_rfl
    | cons g rest ih =>
      unfold segsFrom at ih ⊢
      by_cases hg : min ≤ g.start
      · rw [List.filter_eq_self.mpr]
        intro g' hg'
        have hlist : g.file :: rest.map Seg.file <:+ log.mapedFiles := by
          rw [← htiled.files]
          exact hs.map Seg.file
        have hle := start_le_of_suffix htiled.chained hlist
          (List.mem_map_of_mem (f := Seg.file) hg')
        have hle' : g.start ≤ g'.start := hle
        exact decide_eq_true (by omega)
      · rw [List.filter_cons_of_neg (by simpa using hg)]
        exact (ih ((List.suffix_cons g rest).trans hs)).trans (List.suffix_cons g rest)
  exact hsub segs List.suffix_rfl

/-- The beginning of the log is found from offset 0. -/
lemma getData_zero (hc : Chained q) {first : MapedFile Bytes} {files : List (MapedFile Bytes)}
    (hfiles : q.mapedFiles = first :: files) :
    getData q 0 ((0 : ℕ) = 0) =
      getData q first.fileFromOffset (first.fileFromOffset = 0) := by
  have hmem : first ∈ q.mapedFiles := by simp [hfiles]
  have hpos := q.size_pos
  have hfind : q.findMapedFileByOffset 0 true = some first := by
    by_cases hzero : first.fileFromOffset = 0
    · exact find_of_mem hc hmem (by omega) (by omega) true
    · unfold MapedFileQueue.findMapedFileByOffset
      obtain ⟨k, hk⟩ := hc.aligned (extent first) (List.mem_map_of_mem hmem)
      change first.fileFromOffset = _ at hk
      have hk0 : k ≠ 0 := fun h => hzero (by rw [hk, h, Nat.mul_zero])
      simp only [hfiles]
      rw [if_neg, if_pos trivial]
      unfold MapedFileQueue.findIndex
      rw [hk, Nat.mul_div_cancel_left _ hpos, Nat.zero_div]
      omega
  rw [getData, getData, find_of_mem hc hmem le_rfl (by omega)]
  simp only [decide_true, hfind, Option.bind_some, Nat.zero_mod]
  rw [mod_eq_sub hc hmem le_rfl (by omega), Nat.sub_self]

lemma doReput_zero (hc : Chained q) {first : MapedFile Bytes} {files : List (MapedFile Bytes)}
    (hfiles : q.mapedFiles = first :: files) (check : Bytes → DispatchRequest × Bytes)
    (hget : getData q 0 ((0 : ℕ) = 0) ≠ none) (fuel : ℕ) :
    doReput check q fuel 0 = doReput check q fuel first.fileFromOffset := by
  cases fuel with
  | zero => rfl
  | succ fuel =>
    rw [doReput, doReput]
    have := getData_zero hc hfiles
    cases h : getData q 0 ((0 : ℕ) = 0) with
    | none => exact absurd h hget
    | some result => rw [← this, h]

/-- A file of the slave that something has been written to is a file of the log. -/
lemma exists_seg (htiled : TiledBy cfg.maxMessageSize log segs) (hcopy : Copy log q)
    {f : MapedFile Bytes} (hf : f ∈ q.mapedFiles) (hpos : 0 < f.wrotePostion) :
    ∃ g ∈ segs, g.start = f.fileFromOffset := by
  have hlen := length_written hcopy.chained hcopy.mapped hf
  obtain ⟨b, hb⟩ : ∃ b, byteAt q f.fileFromOffset = some b :=
    ⟨_, (byteAt_eq_some_iff hcopy.chained hcopy.mapped).mpr
      ⟨f, hf, le_rfl, List.getElem?_eq_getElem (by omega)⟩⟩
  obtain ⟨f', hf', hle, hb'⟩ :=
    (byteAt_eq_some_iff htiled.chained htiled.mapped).mp (hcopy.agrees _ b hb)
  have hlen' := (List.getElem?_eq_some_iff.mp hb').1
  rw [length_written htiled.chained htiled.mapped hf'] at hlen'
  have hwrote := wrote_le htiled.chained hf'
  rw [← htiled.files] at hf'
  obtain ⟨g, hg, rfl⟩ := List.mem_map.mp hf'
  have h1 := mod_eq_sub htiled.chained (htiled.mem_files hg) hle (by omega)
  have h2 := mod_eq_sub hcopy.chained hf le_rfl (by have := q.size_pos; omega)
  rw [hcopy.size_eq] at h2
  refine ⟨g, hg, ?_⟩
  change g.file.fileFromOffset = _
  omega

/-- The first file of the slave is a file of the log, when something has been written to it. -/
lemma at_first (htiled : TiledBy cfg.maxMessageSize log segs) (hcopy : Copy log q)
    {first : MapedFile Bytes} {files : List (MapedFile Bytes)}
    (hfiles : q.mapedFiles = first :: files)
    (hget : getData q first.fileFromOffset (first.fileFromOffset = 0) ≠ none) :
    At log.mapedFileSize (segsFrom q.getMinOffset segs) first.fileFromOffset [] := by
  have hmem : first ∈ q.mapedFiles := by simp [hfiles]
  have hmin : q.getMinOffset = first.fileFromOffset := by
    rw [MapedFileQueue.getMinOffset, hfiles, List.head?_cons]
  obtain ⟨result, hresult⟩ := Option.ne_none_iff_exists'.mp hget
  have hlt := getData_lt_max hcopy.chained hmin.le hresult
  have hwrote : 0 < first.wrotePostion := by
    by_contra hzero
    have hnot : first.wrotePostion ≠ q.mapedFileSize := by
      have := q.size_pos
      omega
    have := max_of_not_full hcopy.chained hmem hnot
    omega
  obtain ⟨g, hg, hfrom⟩ := exists_seg htiled hcopy hmem hwrote
  have hgfrom : g ∈ segsFrom q.getMinOffset segs := by
    refine List.mem_filter.mpr ⟨hg, decide_eq_true ?_⟩
    rw [hmin]
    exact_mod_cast hfrom.ge
  obtain ⟨g₀, after, hsplit⟩ := List.exists_cons_of_ne_nil (List.ne_nil_of_mem hgfrom)
  -- the first of these files is no later and no earlier
  have hstart : g₀.start = first.fileFromOffset := by
    have hlist : g₀.file :: after.map Seg.file <:+ log.mapedFiles := by
      have := (segsFrom_suffix htiled q.getMinOffset).map Seg.file
      rwa [hsplit, htiled.files] at this
    have h1 := start_le_of_suffix htiled.chained hlist (g := g.file) (by
      have := List.mem_map_of_mem (f := Seg.file) hgfrom
      rwa [hsplit] at this)
    have h2 : g₀ ∈ segsFrom q.getMinOffset segs := by rw [hsplit]; simp
    have h3 := of_decide_eq_true (List.mem_filter.mp h2).2
    rw [hmin] at h3
    have h4 : first.fileFromOffset ≤ g₀.start := by exact_mod_cast h3
    have h5 : g₀.start ≤ g.start := h1
    omega
  have := @At.inside log.mapedFileSize _ [] after g₀ [] g₀.recs hsplit rfl
  rwa [sizes_nil, Nat.add_zero, hstart, messages_nil, List.append_nil] at this

/-- What the run keeps. -/
structure Inv (svc : Option ScheduleMessageService) (log : MapedFileQueue Bytes) (segs : List Seg)
    (before : List Rec) (s : Slave) : Prop where
  copy : Copy log s.commitLog
  stands : ∃ new, Stands log segs s (before ++ new) ∧ s.dispatched = new.map (Rec.request svc)

/-- A run of the loop ends, and then every record that lies within the log is dispatched. -/
structure Ends (check : Bytes → DispatchRequest × Bytes) (segs : List Seg) (s s' : Slave) :
    Prop where
  ends : ∃ n, ∀ fuel, n ≤ fuel → step check s (.doReput fuel) = some s'
  same : s'.commitLog = s.commitLog
  complete : Complete (segsFrom s.commitLog.getMinOffset segs) s.commitLog.getMaxOffset
    s'.reputFromOffset

/-- A run from a place in the log. -/
lemma reput_from (htiled : TiledBy cfg.maxMessageSize log segs)
    (hread : ∀ r ∈ messages segs, r.Readable svc) (hcopy : Copy log s.commitLog) {new : List Rec}
    (hdisp : s.dispatched = new.map (Rec.request svc)) {o : ℕ}
    (hat : At log.mapedFileSize (segsFrom s.commitLog.getMinOffset segs) o (before ++ new))
    (hne : s.commitLog.mapedFiles ≠ [])
    (heq : ∀ fuel, doReput (reputCheck cfg.maxMessageSize svc) s.commitLog fuel s.reputFromOffset =
      doReput (reputCheck cfg.maxMessageSize svc) s.commitLog fuel o) :
    ∃ s', Ends (reputCheck cfg.maxMessageSize svc) segs s s' ∧ Inv svc log segs before s' := by
  have hmin : s.commitLog.getMinOffset ≤ o := hat.min_le fun g hg =>
    of_decide_eq_true (List.mem_filter.mp hg).2
  obtain ⟨o', new', h1, h2, h3⟩ := doReput_spec htiled hread hcopy
    (segsFrom_suffix htiled s.commitLog.getMinOffset) _ (Nat.lt_succ_self _) hat hmin
  refine ⟨⟨s.commitLog, o', s.dispatched ++ new'.map (Rec.request svc)⟩,
    ⟨⟨s.commitLog.getMaxOffset - o + 1, fun fuel hfuel => ?_⟩, rfl, h3⟩, hcopy, new ++ new',
    .inr ⟨hne, ?_⟩, ?_⟩
  · rw [step, heq, h1 fuel hfuel, Option.map_some]
  · rwa [← List.append_assoc]
  · rw [hdisp, List.map_append]

/-- Nothing lies within a log that nothing has been written to. -/
lemma complete_of_getData_zero (hcopy : Copy log q) {o : ℕ}
    (hget : getData q 0 ((0 : ℕ) = 0) = none) :
    Complete (segsFrom q.getMinOffset segs) q.getMaxOffset o := by
  intro g hg x hx hle
  have hstart : q.getMinOffset ≤ g.start := of_decide_eq_true (List.mem_filter.mp hg).2
  have hbounds := place_bounds hx
  have hpos := x.2.size_pos
  cases hfiles : q.mapedFiles with
  | nil =>
    have : q.getMaxOffset = 0 := by simp [MapedFileQueue.getMaxOffset, hfiles]
    omega
  | cons first files =>
    have hmin : q.getMinOffset = first.fileFromOffset := by
      rw [MapedFileQueue.getMinOffset, hfiles, List.head?_cons]
    rw [getData_zero hcopy.chained hfiles] at hget
    have := max_le_of_getData hcopy.chained hcopy.available hmin.le hget
    omega

/-- A run of the loop, from any state the slave can be in. -/
lemma Inv.reput (htiled : TiledBy cfg.maxMessageSize log segs)
    (hread : ∀ r ∈ messages segs, r.Readable svc) (h : Inv svc log segs before s) :
    ∃ s', Ends (reputCheck cfg.maxMessageSize svc) segs s s' ∧ Inv svc log segs before s' := by
  obtain ⟨hcopy, new, hstands, hdisp⟩ := h
  rcases hstands with ⟨hzero, hnil⟩ | ⟨hne, hat⟩
  · by_cases hget : getData s.commitLog 0 ((0 : ℕ) = 0) = none
    · refine ⟨s, ⟨⟨1, fun fuel hfuel => ?_⟩, rfl, complete_of_getData_zero hcopy hget⟩,
        hcopy, new, .inl ⟨hzero, hnil⟩, hdisp⟩
      rw [step, hzero, doReput_none hget (by omega), Option.map_some, List.append_nil, ← hzero]
    · cases hfiles : s.commitLog.mapedFiles with
      | nil => simp [getData, MapedFileQueue.findMapedFileByOffset, hfiles] at hget
      | cons first files =>
        refine reput_from htiled hread hcopy hdisp (o := first.fileFromOffset) ?_ (by simp [hfiles])
          fun fuel => ?_
        · rw [hnil]
          exact at_first htiled hcopy hfiles (by rwa [← getData_zero hcopy.chained hfiles])
        · rw [hzero]
          exact doReput_zero hcopy.chained hfiles _ hget fuel
  · exact reput_from htiled hread hcopy hdisp hat hne fun _ => rfl

/-- **One step.** -/
lemma step_inv (htiled : TiledBy cfg.maxMessageSize log segs)
    (hread : ∀ r ∈ messages segs, r.Readable svc) {a : Action} (h : Inv svc log segs before s)
    (hok : Received log s a) (hs : step (reputCheck cfg.maxMessageSize svc) s a = some s') :
    Inv svc log segs before s' := by
  cases a with
  | appendToCommitLog fresh startOffset data =>
    obtain rfl := Option.some.inj hs
    obtain ⟨⟨hc, hm, hsize⟩, -⟩ :=
      appendData_cases fresh startOffset data h.copy.chained h.copy.mapped rfl
    refine ⟨⟨hc, hm, hsize.trans h.copy.size_eq,
      available_appendData fresh startOffset data h.copy.available, hok⟩, ?_⟩
    obtain ⟨new, hstands, hdisp⟩ := h.stands
    refine ⟨new, hstands.imp_right fun ⟨hne, hat⟩ => ?_, hdisp⟩
    -- the first file stays
    have hmin := (getMinOffset_appendData fresh startOffset data h.copy.chained
      h.copy.mapped).resolve_right fun hnil => hne hnil.1
    simp only [hmin]
    refine ⟨fun hnil => hne ?_, hat⟩
    have : s.commitLog.getMinOffset = -1 := by
      rw [← hmin]
      simp [MapedFileQueue.getMinOffset, hnil]
    unfold MapedFileQueue.getMinOffset at this
    cases hfiles : s.commitLog.mapedFiles with
    | nil => rfl
    | cons f files =>
      rw [hfiles, List.head?_cons] at this
      simp only at this
      omega
  | doReput fuel =>
    obtain ⟨s₁, ⟨⟨n, hn⟩, -, -⟩, hinv⟩ := h.reput htiled hread
    have h1 := hn (max n fuel) (le_max_left _ _)
    obtain ⟨r, hr, rfl⟩ := Option.map_eq_some_iff.mp hs
    rw [step, doReput_mono hr (le_max_right _ _), Option.map_some, Option.some.injEq] at h1
    exact h1 ▸ hinv

/-- When the loop ends, the records that lie within the log are among those gone through. -/
lemma sublist_of_complete (htiled : TiledBy cfg.maxMessageSize log segs)
    (hstands : Stands log segs s done) {max : ℕ}
    (hcomplete : Complete (segsFrom s.commitLog.getMinOffset segs) max s.reputFromOffset) :
    List.Sublist (((placed (segsFrom s.commitLog.getMinOffset segs)).filter
      fun x => x.1 + x.2.size ≤ max).map Prod.snd) done := by
  have hlt : ∀ x ∈ placed (segsFrom s.commitLog.getMinOffset segs), x.1 + x.2.size ≤ max →
      x.1 < s.reputFromOffset := by
    intro x hx
    obtain ⟨g, hg, hx⟩ := List.mem_flatMap.mp hx
    exact hcomplete g hg x hx
  rcases hstands with ⟨hzero, rfl⟩ | ⟨-, hat⟩
  · rw [List.filter_eq_nil_iff.mpr]
    · simp
    · intro x hx hle
      have := hlt x hx (of_decide_eq_true hle)
      omega
  · rw [hat.eq_filter htiled (segsFrom_suffix htiled _)]
    refine List.Sublist.map _ ?_
    -- filtering by the offset first drops nothing
    have hsame : ∀ x ∈ placed (segsFrom s.commitLog.getMinOffset segs),
        decide (x.1 + x.2.size ≤ max) =
          (decide (x.1 + x.2.size ≤ max) && decide (x.1 < s.reputFromOffset)) := by
      intro x hx
      have := hlt x hx
      by_cases hle : x.1 + x.2.size ≤ max
      · simp [hle, this hle]
      · simp [hle]
    rw [List.filter_congr hsame, ← List.filter_filter]
    exact List.filter_sublist

end Growing

/-- The schedule service of a store, as the constructor with three arguments makes it. -/
def scheduleMessageServiceOf (svc : ScheduleMessageService) :
    BrokerRole → Option ScheduleMessageService
  | .SLAVE => none
  | .ASYNC_MASTER | .SYNC_MASTER => some svc

/-- The record of a delayed message: the level is still among its properties. -/
def Delayed (m : MessageExtBrokerInner) : Prop :=
  m.topic = SCHEDULE_TOPIC ∧ (storedProps m).get PROPERTY_DELAY_TIME_LEVEL ≠ none

lemma delayReadable_none {m : MessageExtBrokerInner} : DelayReadable none m ↔ ¬ Delayed m := by
  unfold DelayReadable Delayed
  cases h : (storedProps m).get PROPERTY_DELAY_TIME_LEVEL with
  | none => simp
  | some t => simp

/-- The check that `doReput` makes in the store of a slave. -/
def slaveCheck (cfg : MessageStoreConfig) : Bytes → DispatchRequest × Bytes :=
  reputCheck cfg.maxMessageSize (scheduleMessageServiceOf cfg.scheduleMessageService .SLAVE)

/-- What the slave has dispatched, beyond the records before the place where it began: the
requests of the records that follow, in order, up to the offset where it reads on. -/
def InOrder (log : MapedFileQueue Bytes) (segs : List Seg) (before new : List Rec) (s : Slave) :
    Prop :=
  s.dispatched = new.map (Rec.request none) ∧
    before ++ new <+: messages (segsFrom s.commitLog.getMinOffset segs) ∧
    Stands log segs s (before ++ new)

lemma Inv.inOrder {log : MapedFileQueue Bytes} {segs : List Seg} {before : List Rec} {s : Slave}
    (h : Inv none log segs before s) : ∃ new, InOrder log segs before new s := by
  obtain ⟨new, hstands, hdisp⟩ := h.stands
  refine ⟨new, hdisp, ?_, hstands⟩
  rcases hstands with ⟨-, hnil⟩ | ⟨-, hat⟩
  · rw [hnil]
    exact List.nil_prefix
  · exact hat.prefix_messages

/-- **Reput.** While the log arrives in pieces of any kind and `doReput` runs in between, the
slave dispatches the records of the log in order and each of them once, and reads on where the
first record begins that it has not dispatched; every run of `doReput` ends, and then the records
that lie within the log are dispatched. The records must be readable without a schedule
service. -/
theorem reput_exactly_once {cfg : MessageStoreConfig} {log : MapedFileQueue Bytes}
    {segs : List Seg} (htiled : TiledBy cfg.maxMessageSize log segs)
    (hread : ∀ r ∈ messages segs, Fits r.message ∧ ¬ Delayed r.message) {s₀ s : Slave}
    {before : List Rec} (hcopy : Copy log s₀.commitLog) (hnone : s₀.dispatched = [])
    (hstands : Stands log segs s₀ before) {actions : List Action}
    (hok : Meets (step (slaveCheck cfg)) (Received log) s₀ actions)
    (hrun : run (step (slaveCheck cfg)) s₀ actions = some s) :
    (∃ new, InOrder log segs before new s) ∧
    ∃ s' new', (∃ n, ∀ fuel, n ≤ fuel → step (slaveCheck cfg) s (.doReput fuel) = some s') ∧
      s'.commitLog = s.commitLog ∧ InOrder log segs before new' s' ∧
      List.Sublist (((placed (segsFrom s.commitLog.getMinOffset segs)).filter
        fun x => x.1 + x.2.size ≤ s.commitLog.getMaxOffset).map Prod.snd) (before ++ new') := by
  have hread' : ∀ r ∈ messages segs, r.Readable none := fun r hr =>
    ⟨(hread r hr).1, delayReadable_none.mpr (hread r hr).2⟩
  have h0 : Inv none log segs before s₀ := ⟨hcopy, [], by rwa [List.append_nil], by simp [hnone]⟩
  have hinv : Inv none log segs before s :=
    run_invariant (fun _ _ _ h hok hs => step_inv htiled hread' h hok hs) h0 hok hrun
  obtain ⟨s', ⟨hends, hsame, hcomplete⟩, hinv'⟩ := hinv.reput htiled hread'
  obtain ⟨new', hnew'⟩ := hinv'.inOrder
  refine ⟨hinv.inOrder, s', new', hends, hsame, hnew', ?_⟩
  rw [← hsame] at hcomplete ⊢
  exact sublist_of_complete htiled hnew'.2.2 hcomplete


/-! ### One file of 1024 bytes -/

def fileOf (recs : List Rec) : MapedFile Bytes where
  fileFromOffset := 0
  mappedByteBuffer := bytesOf recs ++ zeros (1024 - (bytesOf recs).length)
  wrotePostion := (bytesOf recs).length

def logOf (recs : List Rec) : MapedFileQueue Bytes where
  mapedFileSize := 1024
  size_pos := pos_1024
  mapedFiles := [fileOf recs]
  committedWhere := 0
  storeTimestamp := 0

lemma tiledBy_logOf {maxMessageSize : ℕ} {recs : List Rec}
    (hw : ∀ r ∈ recs, r.Written maxMessageSize) (hroom : sizes recs + 8 ≤ 1024) :
    TiledBy maxMessageSize (logOf recs) [⟨fileOf recs, recs⟩] := by
  have hlen := length_bytesOf hw
  refine ⟨⟨by simp [extents, logOf], ?_, ?_⟩, ?_, rfl, ?_⟩
  · simp [extents, logOf, extent, fileOf]
  · simp only [extents, logOf, fileOf, extent, List.map_cons, List.map_nil, List.mem_singleton,
      forall_eq]
    omega
  · simp only [Mapped, logOf, fileOf, List.mem_singleton, forall_eq, List.length_append, zeros,
      List.length_replicate]
    omega
  · simp only [List.mem_singleton, forall_eq]
    refine ⟨hw, .inr ⟨_, rfl, ?_, hlen⟩⟩
    simp only [zeros, List.length_replicate]
    omega

/-- A slave that has received nothing yet. -/
def newSlave : Slave := ⟨Chain.empty 1024 pos_1024, 0, []⟩

lemma copy_newSlave (recs : List Rec) : Copy (logOf recs) newSlave.commitLog where
  chained := .nil
  mapped := by simp [Mapped, newSlave, Chain.empty]
  size_eq := rfl
  available := by simp [newSlave, Chain.empty]
  agrees := by
    intro o b hb
    simp [newSlave, Chain.empty, byteAt, MapedFileQueue.findMapedFileByOffset] at hb

/-- The record of a message that was delayed by the first level. -/
def delayedRec : Rec where
  message := { (recTo SCHEDULE_TOPIC 0).message with
    propertiesString :=
      some ("DELAY".toList ++ [NAME_VALUE_SEPARATOR, '1', PROPERTY_SEPARATOR]) }
  bornHost := [127, 0, 0, 1] ++ putInt 10911
  storeHost := [127, 0, 0, 1] ++ putInt 10911
  queueOffset := 0
  physicOffset := 0

/-- A delayed message has arrived as a whole, and the slave does not dispatch it. -/
theorem reput_exactly_once_delayed :
    TiledBy config.maxMessageSize (logOf [delayedRec]) [⟨fileOf [delayedRec], [delayedRec]⟩] ∧
    ∃ s, run (step (slaveCheck config)) newSlave
        [.appendToCommitLog (some fun _ => 0) 0 delayedRec.bytes, .doReput 1] = some s ∧
      s.commitLog.getMaxOffset = delayedRec.size ∧ s.reputFromOffset = 0 ∧ s.dispatched = [] := by
  refine ⟨tiledBy_logOf ?_ (by decide), ?_⟩
  · simp only [List.mem_singleton, forall_eq]
    exact ⟨by decide, by decide, rfl, by decide⟩
  · have hrun : (run (step (slaveCheck config)) newSlave
        [.appendToCommitLog (some fun _ => 0) 0 delayedRec.bytes, .doReput 1]).map
          (fun s => (s.commitLog.getMaxOffset, s.reputFromOffset, s.dispatched)) =
        some (delayedRec.size, 0, []) := by decide +kernel
    obtain ⟨s, hs, heq⟩ := Option.map_eq_some_iff.mp hrun
    simp only [Prod.mk.injEq] at heq
    exact ⟨s, hs, heq⟩

/-- `Received`, evaluated. -/
def received (log : MapedFileQueue Bytes) (s : Slave) : Action → Bool
  | .appendToCommitLog fresh startOffset data =>
    let q := (appendData fresh startOffset data s.commitLog).1
    (List.range q.getMaxOffset).all fun o => (byteAt q o).all fun b => byteAt log o = some b
  | .doReput _ => true

lemma received_of_check {log : MapedFileQueue Bytes} {s : Slave} {a : Action}
    (hcopy : Copy log s.commitLog) (h : received log s a) : Received log s a := by
  cases a with
  | appendToCommitLog fresh startOffset data =>
    obtain ⟨⟨hc, hm, -⟩, -⟩ :=
      appendData_cases fresh startOffset data hcopy.chained hcopy.mapped rfl
    intro o b hb
    have hall := List.all_eq_true.mp h o (List.mem_range.mpr (byteAt_lt hc hm hb))
    rw [hb, Option.all_some] at hall
    exact of_decide_eq_true hall
  | doReput fuel => trivial

/-- Two records, one behind the other. -/
def pair : List Rec :=
  [recTo "TopicTest".toList 0, recTo "TopicTest".toList (recTo "TopicTest".toList 0).size]

lemma tiledBy_pair : TiledBy config.maxMessageSize (logOf pair) [⟨fileOf pair, pair⟩] := by
  refine tiledBy_logOf ?_ (by decide)
  simp only [pair, List.mem_cons, List.not_mem_nil, or_false, forall_eq_or_imp, forall_eq]
  exact ⟨⟨by decide, by decide, rfl, by decide⟩,
    by decide, by decide, rfl, by decide⟩

lemma readable_pair :
    ∀ r ∈ messages [⟨fileOf pair, pair⟩], Fits r.message ∧ ¬ Delayed r.message := by
  simp only [messages_cons, messages_nil, List.append_nil, pair, List.mem_cons, List.not_mem_nil,
    or_false, forall_eq_or_imp, forall_eq]
  refine ⟨⟨⟨?_, ?_⟩, fun h => ?_⟩, ⟨?_, ?_⟩, fun h => ?_⟩
  all_goals first | exact absurd h.1 (by decide) | decide

/-- The first record arrives in two pieces, the second one not as a whole. -/
def arrivals : List Action :=
  [.appendToCommitLog (some fun _ => 0) 0 ((bytesOf pair).take 50), .doReput 2,
    .appendToCommitLog none 50 (((bytesOf pair).drop 50).take 100), .doReput 3]

theorem reput_exactly_once_pieces :
    ∃ s new, run (step (slaveCheck config)) newSlave arrivals = some s ∧
      s.commitLog.getMaxOffset = 150 ∧ s.dispatched.length = 1 ∧
      InOrder (logOf pair) [⟨fileOf pair, pair⟩] [] new s := by
  have hmeets : Meets (step (slaveCheck config)) (Received (logOf pair)) newSlave arrivals := by
    refine meets_of_checks_of_inv
      (fun s a s' (h : Inv none (logOf pair) [⟨fileOf pair, pair⟩] [] s) hok hs => ?_)
      (fun s a h => received_of_check h.copy) ?_ (by decide +kernel)
    · exact step_inv tiledBy_pair (fun r hr => ⟨(readable_pair r hr).1,
        delayReadable_none.mpr (readable_pair r hr).2⟩) h hok hs
    · exact ⟨copy_newSlave pair, [], .inl ⟨rfl, rfl⟩, rfl⟩
  have hrun : (run (step (slaveCheck config)) newSlave arrivals).map
      (fun s => (s.commitLog.getMaxOffset, s.dispatched.length)) = some (150, 1) := by
    decide +kernel
  obtain ⟨s, hs, heq⟩ := Option.map_eq_some_iff.mp hrun
  rw [Prod.mk.injEq] at heq
  obtain ⟨⟨new, hnew⟩, -⟩ := reput_exactly_once tiledBy_pair readable_pair (copy_newSlave pair)
    rfl (.inl ⟨rfl, rfl⟩) hmeets hs
  exact ⟨s, new, hs, heq.1, heq.2, hnew⟩

end CloudMQ.Reput
