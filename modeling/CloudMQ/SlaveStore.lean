import CloudMQ.Reput

/-!
What the store of a slave makes of the records of its master.

Master and slave run the same reader in stores that are built differently. The constructor with
three arguments gives a slave no schedule service, and the reader needs one for a delayed
message. Such a record is refused, by `doReput` and by recovery; every other record that fits its
length fields is read with the size the master reported.
-/

namespace CloudMQ.SlaveStore

open CloudMQ.Buffer CloudMQ.Message CloudMQ.Record CloudMQ.Codec CloudMQ.Segment CloudMQ.Chain
open CloudMQ.Extents CloudMQ.CommitLog CloudMQ.Append CloudMQ.Agreement CloudMQ.Recover
open CloudMQ.Records CloudMQ.ValidPrefix CloudMQ.Tiling CloudMQ.LogBytes CloudMQ.Reput

/-! ### One record -/

/-- What was read is the record: it has the size that was reported and the topic of the message,
and the buffer stands behind it. -/
structure Understands (m : MessageExtBrokerInner) (result : AppendMessageResult) (rest : Bytes)
    (read : DispatchRequest × Bytes) : Prop where
  size : read.1.msgSize.toInt = result.wroteBytes
  pos : 0 < result.wroteBytes
  topic : read.1.topic = m.topic
  position : read.2 = rest

section Record

variable {cfg : MessageStoreConfig} {svc : Option ScheduleMessageService} {checkCRC readBody : Bool}
  {m : MessageExtBrokerInner} {result : AppendMessageResult} {bh sh : Bytes} {qo : Int64} {p : ℕ}

/-- A record that fits is read with its size, or refused. -/
lemma msgSize_record_iff (hcrc : OwnCRC m) (hb : bh.length = 8) (hs : sh.length = 8)
    (hmax : recordSize m ≤ cfg.maxMessageSize) (hfits : Fits m) (rest : Bytes) :
    (checkMessageAndReturnSize cfg.maxMessageSize svc checkCRC readBody
        (recordBytes m (Int32.ofNat (recordSize m)) bh sh qo p ++ rest)).1.msgSize.toInt =
      recordSize m ↔ DelayReadable svc m := by
  have hint : (Int32.ofNat (recordSize m)).toInt = recordSize m :=
    Int32.toInt_ofNat_of_lt (by have := cfg.maxMessageSize_lt; omega)
  rw [check_fits hcrc hb hs hmax hfits, ← storedTagsCode_isSome]
  cases storedTagsCode svc m with
  | none =>
    have h1 : (-1 : Int32).toInt = -1 := rfl
    simp only [Option.map_none, Option.getD_none, DispatchRequest.ofSize, Option.isSome_none,
      Bool.false_eq_true, iff_false, h1]
    omega
  | some tagsCode =>
    simp only [Option.map_some, Option.getD_some, requestOf, hint, Option.isSome_some]

lemma understands_record_iff (hcrc : OwnCRC m) (hb : bh.length = 8) (hs : sh.length = 8)
    (hmax : recordSize m ≤ cfg.maxMessageSize) (hsize : result.wroteBytes = recordSize m)
    (rest : Bytes) :
    Understands m result rest (checkMessageAndReturnSize cfg.maxMessageSize svc checkCRC readBody
        (recordBytes m (Int32.ofNat (recordSize m)) bh sh qo p ++ rest)) ↔
      Fits m ∧ DelayReadable svc m := by
  constructor
  · intro h
    have hfits : Fits m := by
      have hcheck := @check_recordBytes m svc checkCRC readBody (Int32.ofNat (recordSize m)) bh sh
        qo p hcrc hb hs _ hmax rest
      cases ht : (readText (cfg.maxMessageSize + END_FILE_MIN_BLANK_LENGTH) svc
          (Int32.ofNat (recordSize m)) (fixedOf m qo p)).run (textBytes m ++ rest) with
      | none =>
        have hneg := h.size
        rw [hcheck, ht] at hneg
        have h1 : (-1 : Int32).toInt = -1 := rfl
        simp only [Option.getD_none, DispatchRequest.ofSize] at hneg
        omega
      | some out =>
        rw [ht, Option.getD_some] at hcheck
        exact fits_of_readText (by omega) ht (by rw [← h.topic, hcheck])
          (by rw [← h.position, hcheck])
    exact ⟨hfits, (msgSize_record_iff hcrc hb hs hmax hfits rest).mp (by rw [h.size, hsize])⟩
  · rintro ⟨hfits, hdelay⟩
    have hread := (@msgSize_record_iff cfg svc checkCRC readBody m bh sh qo p hcrc hb hs hmax
      hfits rest).mpr hdelay
    obtain ⟨tagsCode, htags⟩ := Option.isSome_iff_exists.mp (storedTagsCode_isSome.mpr hdelay)
    rw [check_fits hcrc hb hs hmax hfits, htags] at hread ⊢
    refine ⟨by rw [hsize]; exact hread, ?_, rfl, rfl⟩
    rw [hsize]
    unfold recordSize
    omega

end Record

/-- The bytes of the log that the master reported for a message. -/
def replicated (q : MapedFileQueue Bytes) (result : AppendMessageResult) : Bytes :=
  (sliceAt q result.wroteOffset).take result.wroteBytes

section Stored

variable {cfg : MessageStoreConfig} {env : Env} {m : MessageExtBrokerInner}
  {log log' : Log} {result : AppendMessageResult}

/-- The log holds the record of a message that was stored, or a blank record when a file has no
room for it. -/
lemma replicated_stored (hlog : LogOK log)
    (hp : putLocked cfg env m log = (log', .stored result)) :
    (recordSize m + END_FILE_MIN_BLANK_LENGTH ≤ log.mapedFileQueue.mapedFileSize ∧
      recordSize m ≤ cfg.maxMessageSize ∧ result.wroteBytes = recordSize m ∧
      ∃ bh sh, bh.length = 8 ∧ sh.length = 8 ∧ replicated log'.mapedFileQueue result =
        recordBytes m (Int32.ofNat (recordSize m)) bh sh result.logicsOffset result.wroteOffset) ∨
    ¬ recordSize m + END_FILE_MIN_BLANK_LENGTH ≤ log.mapedFileQueue.mapedFileSize ∧
      8 ≤ result.wroteBytes ∧ ∃ memory, replicated log'.mapedFileQueue result =
        blankBytes memory result.wroteBytes := by
  obtain ⟨log₁, fresh, memory, f, q, bs, hok₁, hsize, hap, hstatus⟩ := putLocked_stored hlog hp
  have hslice := sliceAt_appended hok₁ hap
  have hlen := hap.length_eq
  have htake : ∀ o, o = f.fileFromOffset + f.wrotePostion →
      (sliceAt log'.mapedFileQueue o).take result.wroteBytes = bs := by
    rintro o rfl
    rw [hslice]
    exact List.take_left' hlen
  rw [← hsize]
  rcases hap.wrote with hw | hw | ⟨rfl, -⟩
  · obtain ⟨bh, sh, hb, hs, hbs⟩ := hw.bytes
    have := hw.fits
    refine .inl ⟨by omega, hw.size_le, hw.wroteBytes, bh, sh, hb, hs, ?_⟩
    rw [replicated, htake _ hw.wroteOffset, hbs, hw.wroteOffset]
  · have hzero : f.wrotePostion = 0 := by
      rcases hstatus with hs | ⟨-, hs⟩
      · rw [hw.status] at hs; exact absurd hs (by simp)
      · exact hs
    have h1 := hw.no_room
    have h2 := msgLen_le m
    have h3 := hw.le
    rw [hzero] at h1
    refine .inr ⟨by omega, by rw [hw.wroteBytes]; exact hw.le, memory, ?_⟩
    rw [replicated, htake _ hw.wroteOffset, hw.bytes, hw.wroteBytes]
  · simp [AppendMessageResult.ofStatus] at hstatus

/-- The record of a message that was stored is understood when a file has room for it, it fits
and its delay level can be read. -/
lemma understands_stored_iff {svc : Option ScheduleMessageService} {checkCRC readBody : Bool}
    (hlog : LogOK log) (hcrc : OwnCRC m) (hp : putLocked cfg env m log = (log', .stored result))
    (rest : Bytes) :
    Understands m result rest (checkMessageAndReturnSize cfg.maxMessageSize svc checkCRC readBody
        (replicated log'.mapedFileQueue result ++ rest)) ↔
      recordSize m + END_FILE_MIN_BLANK_LENGTH ≤ log.mapedFileQueue.mapedFileSize ∧
        Fits m ∧ DelayReadable svc m := by
  rcases replicated_stored hlog hp with ⟨hroom, hmax, hsize, bh, sh, hb, hs, hrep⟩ |
    ⟨hroom, h8, memory, hrep⟩
  · rw [hrep, understands_record_iff hcrc hb hs hmax hsize]
    exact ⟨fun h => ⟨hroom, h⟩, fun h => h.2⟩
  · refine ⟨fun h => ?_, fun h => absurd h.1 hroom⟩
    -- a blank record is read with size 0
    have hread := h.size
    have h0 : (0 : Int32).toInt = 0 := rfl
    rw [hrep, check_blankBytes] at hread
    simp only [DispatchRequest.ofSize] at hread
    omega

lemma readable_of_msgSize {svc : Option ScheduleMessageService} {checkCRC readBody : Bool}
    (hlog : LogOK log) (hcrc : OwnCRC m) (hp : putLocked cfg env m log = (log', .stored result))
    (hfits : Fits m) {rest : Bytes}
    (hread : (checkMessageAndReturnSize cfg.maxMessageSize svc checkCRC readBody
      (replicated log'.mapedFileQueue result ++ rest)).1.msgSize.toInt = result.wroteBytes) :
    recordSize m + END_FILE_MIN_BLANK_LENGTH ≤ log.mapedFileQueue.mapedFileSize ∧
      DelayReadable svc m := by
  rcases replicated_stored hlog hp with ⟨hroom, hmax, hsize, bh, sh, hb, hs, hrep⟩ |
    ⟨hroom, h8, memory, hrep⟩
  · rw [hrep, hsize] at hread
    exact ⟨hroom, (msgSize_record_iff hcrc hb hs hmax hfits rest).mp hread⟩
  · have h0 : (0 : Int32).toInt = 0 := rfl
    rw [hrep, check_blankBytes] at hread
    simp only [DispatchRequest.ofSize] at hread
    omega

end Stored

/-! ### Recovery -/

/-- The record lies within what is written to the log. -/
def LiesIn (q : MapedFileQueue Bytes) (x : ℕ × Rec) : Prop :=
  ∃ f ∈ q.mapedFiles, f.fileFromOffset ≤ x.1 ∧
    x.2.bytes <+: (written f).drop (x.1 - f.fileFromOffset)

section Recovery

variable {cfg : MessageStoreConfig} {svc : Option ScheduleMessageService} {checkCRC : Bool}
  {log q : MapedFileQueue Bytes} {segs : List Seg} {f : MapedFile Bytes} {g : Seg}

/-- Records and whatever follows them: the scan comes at least to the end of the records. -/
lemma scanFile_ge {recs : List Rec} {tail : Bytes}
    (hw : ∀ r ∈ recs, r.Written cfg.maxMessageSize) (hr : ∀ r ∈ recs, r.Readable svc)
    (hf : f.mappedByteBuffer = bytesOf recs ++ tail) :
    ∃ s, scanFile (recoverCheck cfg svc checkCRC) f = some s ∧ sizes recs ≤ s.mapedFileOffset := by
  obtain ⟨s, hs⟩ := @scanBuffer_total (recoverCheck cfg svc checkCRC) recoverCheck_lt _ tail
    (Nat.lt_succ_self _)
  refine ⟨⟨sizes recs + s.mapedFileOffset, recs.map (Rec.request svc) ++ s.requests, s.fileEnd⟩,
    scanFile_of_scanBuffer recoverCheck_lt (n := tail.length.succ + recs.length) ?_,
    Nat.le_add_right _ s.mapedFileOffset⟩
  rw [hf, scanBuffer_recs hw hr, hs]
  rfl

lemma written_isPrefix (f : MapedFile Bytes) : written f <+: f.mappedByteBuffer :=
  List.take_prefix _ _

/-- The scan of a file of the slave comes to the end of the records that lie within it, and it
goes on behind a full file. -/
lemma scanFile_slave (htiled : TiledBy cfg.maxMessageSize log segs)
    (hread : ∀ r ∈ messages segs, r.Readable svc) (hcopy : Copy log q) (hf : f ∈ q.mapedFiles)
    (hg : g ∈ segs) (hpre : written f <+: written g.file) :
    ∃ s, scanFile (recoverCheck cfg svc checkCRC) f = some s ∧
      (f.wrotePostion = q.mapedFileSize → s.fileEnd = .blank) ∧
      ∀ x ∈ place g.start g.recs, x.1 + x.2.size ≤ g.start + f.wrotePostion →
        x.1 + x.2.size ≤ g.start + s.mapedFileOffset := by
  have hholds := htiled.holds g hg
  have hlenf := length_written hcopy.chained hcopy.mapped hf
  have hroom := hholds.room (htiled.length hg)
  have hread' : ∀ r ∈ g.recs, r.Readable svc := fun r hr =>
    hread r (List.mem_flatMap.mpr ⟨g, hg, hr⟩)
  obtain ⟨tail, hdrop, htail⟩ :=
    hholds.drop (htiled.length hg) (a := []) (b := g.recs) rfl
  rw [sizes_nil, List.drop_zero] at hdrop
  rw [hdrop] at hpre
  by_cases hfull : f.wrotePostion = q.mapedFileSize
  · -- the whole file has arrived, with its blank record
    have hlen : (bytesOf g.recs ++ tail).length ≤ q.mapedFileSize := by
      rw [← hdrop, length_written htiled.chained htiled.mapped (htiled.mem_files hg),
        hcopy.size_eq]
      exact wrote_le htiled.chained (htiled.mem_files hg)
    have hwritten : written f = bytesOf g.recs ++ tail :=
      hpre.eq_of_length_le (by omega)
    have hbuffer : f.mappedByteBuffer = bytesOf g.recs ++ tail := by
      rw [← hwritten, written, hfull, ← hcopy.mapped f hf, List.take_length]
    have hlen' : (bytesOf g.recs ++ tail).length = q.mapedFileSize := by
      rw [← hwritten, hlenf, hfull]
    rw [List.length_append, length_bytesOf hholds.written, hcopy.size_eq] at hlen'
    rcases htail with rfl | ⟨memory, n, rfl⟩
    · rw [List.length_nil] at hlen'
      omega
    · have hblank := @scanBuffer_blank cfg svc checkCRC memory n []
      rw [List.append_nil] at hblank
      refine ⟨_, scanFile_recs hholds.written hread' hbuffer hblank, fun _ => rfl,
        fun x hx _ => (place_bounds hx).2⟩
  · obtain ⟨whole, left, v', hrecs, hv, hcut⟩ := cut_records hholds.written hpre
    have hw : ∀ r ∈ whole, r.Written cfg.maxMessageSize := fun r hr =>
      hholds.written r (by rw [hrecs]; simp [hr])
    obtain ⟨rest, hrest⟩ := written_isPrefix f
    obtain ⟨s, hs, hge⟩ := @scanFile_ge cfg svc checkCRC f whole (v' ++ rest) hw
      (fun r hr => hread' r (by rw [hrecs]; simp [hr]))
      (by rw [← hrest, hv, List.append_assoc])
    refine ⟨s, hs, fun h => absurd h hfull, fun x hx hend => ?_⟩
    rw [hv, List.length_append, length_bytesOf hw] at hlenf
    rw [hrecs, place_append] at hx
    rcases List.mem_append.mp hx with hx | hx
    · have := place_bounds hx
      omega
    · rcases hcut with ⟨rfl, -⟩ | ⟨r, left', rfl, -, hlt⟩
      · simp [place] at hx
      · rcases List.mem_cons.mp hx with rfl | hx
        · simp only at hend
          omega
        · have := place_bounds hx
          omega

/-- When every file but the last ends in a blank record, the scan ends in the last one. -/
lemma scanFiles_ge {check : Bytes → DispatchRequest × Bytes} {files : List (MapedFile Bytes)}
    {last : MapedFile Bytes} {s : Scan}
    (hfiles : ∀ f ∈ files, ∃ s, scanFile check f = some s ∧ s.fileEnd = .blank)
    (hlast : scanFile check last = some s) :
    ∃ ds, scanFiles check (files ++ [last]) =
      some (last.fileFromOffset + s.mapedFileOffset, ds) := by
  induction files with
  | nil => exact ⟨s.requests, by rw [List.nil_append, scanFiles, hlast]; rfl⟩
  | cons f files ih =>
    obtain ⟨s', hs', hend⟩ := hfiles f (by simp)
    obtain ⟨ds, hds⟩ := ih fun f hf => hfiles f (List.mem_cons_of_mem _ hf)
    refine ⟨s'.requests ++ ds, ?_⟩
    cases hrest : files ++ [last] with
    | nil => simp at hrest
    | cons g rest =>
      rw [List.cons_append, hrest, scanFiles, hs', Option.bind_some, hend]
      simp only
      rw [← hrest, hds]
      rfl

/-- The file of the slave that has a record of the log which has arrived as a whole. -/
lemma exists_file_of_complete (htiled : TiledBy cfg.maxMessageSize log segs)
    (hcopy : Copy log q) (hg : g ∈ segs) {x : ℕ × Rec} (hx : x ∈ place g.start g.recs)
    (hmin : q.getMinOffset ≤ x.1) (hmax : x.1 + x.2.size ≤ q.getMaxOffset) :
    ∃ f ∈ q.mapedFiles, f.fileFromOffset = g.start ∧ written f <+: written g.file ∧
      x.1 + x.2.size ≤ g.start + f.wrotePostion := by
  have hpos := x.2.size_pos
  have hroom := (htiled.holds g hg).room (htiled.length hg)
  obtain ⟨hle, hend⟩ := place_bounds hx
  obtain ⟨f, hf, h1, h2⟩ := exists_file hcopy.chained hmin (by omega)
  have hin : x.1 + x.2.size ≤ f.fileFromOffset + f.wrotePostion ∨
      f.wrotePostion = q.mapedFileSize := by
    by_cases hfull : f.wrotePostion = q.mapedFileSize
    · exact .inr hfull
    · exact .inl (by rw [← max_of_not_full hcopy.chained hf hfull]; exact hmax)
  obtain ⟨hfrom, hpre⟩ := file_at htiled hcopy hg hf h1 (by omega) hle (by omega)
  refine ⟨f, hf, hfrom, hpre, ?_⟩
  have := hcopy.size_eq
  omega

/-- A record that has arrived stands in the file as it was written. -/
lemma bytes_isPrefix_drop (htiled : TiledBy cfg.maxMessageSize log segs) (hg : g ∈ segs)
    {x : ℕ × Rec} (hx : x ∈ place g.start g.recs) {v : Bytes} (hpre : v <+: written g.file)
    (hend : x.1 + x.2.size ≤ g.start + v.length) :
    x.2.bytes <+: v.drop (x.1 - g.start) := by
  have hholds := htiled.holds g hg
  obtain ⟨tail, hdrop, -⟩ := hholds.drop (htiled.length hg) (a := []) (b := g.recs) rfl
  rw [sizes_nil, List.drop_zero] at hdrop
  obtain ⟨hle, -, rest, hrest⟩ := place_spec tail hholds.written hx
  have hpre' := hpre.drop (x.1 - g.start)
  rw [hdrop, hrest] at hpre'
  refine List.prefix_of_prefix_length_le (List.prefix_append _ _) hpre' ?_
  have hmem : x.2 ∈ g.recs := by
    rw [← map_snd_place g.start g.recs]
    exact List.mem_map_of_mem hx
  rw [(hholds.written _ hmem).length, List.length_drop]
  omega

/-- The records of the log in the file, as far as they have arrived, lie before the offset. -/
def Covers (segs : List Seg) (f : MapedFile Bytes) (offset : ℕ) : Prop :=
  ∀ g ∈ segs, g.start = f.fileFromOffset → ∀ x ∈ place g.start g.recs,
    x.1 + x.2.size ≤ g.start + f.wrotePostion → x.1 + x.2.size ≤ offset

/-- A file that something has been written to is scanned to the end of what has arrived. -/
lemma scanFile_arrived (htiled : TiledBy cfg.maxMessageSize log segs)
    (hread : ∀ r ∈ messages segs, r.Readable svc) (hcopy : Copy log q) (hf : f ∈ q.mapedFiles)
    (hpos : 0 < f.wrotePostion) :
    ∃ s, scanFile (recoverCheck cfg svc checkCRC) f = some s ∧
      (f.wrotePostion = q.mapedFileSize → s.fileEnd = .blank) ∧
      Covers segs f (f.fileFromOffset + s.mapedFileOffset) := by
  obtain ⟨g, hg, hstart⟩ := exists_seg htiled hcopy hf hpos
  have hpre := written_prefix hcopy.chained hcopy.mapped htiled.chained hcopy.agrees hf
    (htiled.mem_files hg) hcopy.size_eq.symm hstart
  obtain ⟨s, h1, h2, h3⟩ := @scanFile_slave cfg svc checkCRC log q segs f g htiled hread hcopy hf
    hg hpre
  refine ⟨s, h1, h2, fun g' hg' hstart' => ?_⟩
  rcases htiled.cases hg hg' with rfl | hcase | hcase
  · rw [← hstart]
    exact h3
  all_goals
    have := log.size_pos
    omega

lemma scanFile_last (htiled : TiledBy cfg.maxMessageSize log segs)
    (hread : ∀ r ∈ messages segs, r.Readable svc) (hcopy : Copy log q) (hf : f ∈ q.mapedFiles) :
    ∃ s, scanFile (recoverCheck cfg svc checkCRC) f = some s ∧
      Covers segs f (f.fileFromOffset + s.mapedFileOffset) := by
  by_cases hzero : f.wrotePostion = 0
  · obtain ⟨s, hs⟩ := @scanBuffer_total (recoverCheck cfg svc checkCRC) recoverCheck_lt _
      f.mappedByteBuffer (Nat.lt_succ_self _)
    refine ⟨s, hs, fun g _ _ x hx hend => ?_⟩
    have := place_bounds hx
    have := x.2.size_pos
    omega
  · obtain ⟨s, h1, -, h3⟩ := scanFile_arrived htiled hread hcopy hf (by omega)
    exact ⟨s, h1, h3⟩

/-- The scan of the last three files ends in the last one. -/
lemma scanFiles_slave (htiled : TiledBy cfg.maxMessageSize log segs)
    (hread : ∀ r ∈ messages segs, r.Readable svc) (hcopy : Copy log q)
    {front : List (MapedFile Bytes)} {last : MapedFile Bytes}
    (hfiles : q.mapedFiles = front ++ [last]) :
    ∃ offset ds, scanFiles (recoverCheck cfg svc checkCRC)
        ((reload q).mapedFiles.drop ((reload q).mapedFiles.length - 3)) = some (offset, ds) ∧
      last.fileFromOffset ≤ offset ∧ Covers segs last offset := by
  have hlast : last ∈ q.mapedFiles := by simp [hfiles]
  obtain ⟨s, hs, hcover⟩ := @scanFile_last cfg svc checkCRC log q segs last htiled hread hcopy hlast
  refine ⟨last.fileFromOffset + s.mapedFileOffset, ?_⟩
  have hfront : ∀ f ∈ front, ∃ s, scanFile (recoverCheck cfg svc checkCRC) f = some s ∧
      s.fileEnd = .blank := by
    intro f hf
    have hmem : f ∈ q.mapedFiles := by simp [hfiles, hf]
    have hfull : f.wrotePostion = q.mapedFileSize := by
      obtain ⟨i, hi⟩ := List.getElem?_of_mem hf
      have hlt := (List.getElem?_eq_some_iff.mp hi).1
      refine hcopy.chained.full (i := i) (e := extent f) ?_ ?_
      · rw [extents, List.getElem?_map, hfiles, List.getElem?_append_left hlt, hi]
        rfl
      · rw [extents, List.length_map, hfiles, List.length_append, List.length_singleton]
        omega
    obtain ⟨s, h1, h2, -⟩ := @scanFile_arrived cfg svc checkCRC log q segs f htiled hread hcopy hmem
      (by have := q.size_pos; omega)
    exact ⟨s, h1, h2 hfull⟩
  let mapped := fun f : MapedFile Bytes =>
    MapedFileQueue.loadFile q.mapedFileSize f.fileFromOffset f.mappedByteBuffer
  have hdrop : (reload q).mapedFiles.drop ((reload q).mapedFiles.length - 3) =
      (front.map mapped).drop (front.length - 2) ++ [mapped last] := by
    rw [mapedFiles_reload, hfiles, List.map_append, List.map_singleton, List.length_append,
      List.length_map, List.length_singleton, List.drop_append_of_le_length (by simp)]
    rfl
  obtain ⟨ds, hds⟩ := @scanFiles_ge (recoverCheck cfg svc checkCRC)
    ((front.map mapped).drop (front.length - 2)) (mapped last) s (fun f hf => by
      obtain ⟨f₀, hf₀, rfl⟩ := List.mem_map.mp (List.mem_of_mem_drop hf)
      exact hfront f₀ hf₀) hs
  exact ⟨ds, by rw [hdrop, hds]; rfl, Nat.le_add_right _ _, hcover⟩

/-- A cut at or behind the end of a record keeps it. -/
lemma liesIn_cutAt (hc : Chained q) (hf : f ∈ q.mapedFiles) {x : ℕ × Rec}
    {offset : ℕ} (hle : f.fileFromOffset ≤ x.1)
    (hend : x.1 + x.2.size ≤ f.fileFromOffset + q.mapedFileSize)
    (hcut : x.1 + x.2.size ≤ offset) (hlen : x.2.bytes.length = x.2.size)
    (hbytes : x.2.bytes <+: f.mappedByteBuffer.drop (x.1 - f.fileFromOffset)) :
    LiesIn (cutAt (reload q) offset) x := by
  have hpos := x.2.size_pos
  let f₁ := MapedFileQueue.loadFile q.mapedFileSize f.fileFromOffset f.mappedByteBuffer
  have hf₁ : f₁ ∈ (reload q).mapedFiles := by
    rw [mapedFiles_reload]
    exact List.mem_map_of_mem hf
  -- what the cut leaves of the file
  have hkeep : ∀ w, x.1 + x.2.size ≤ f.fileFromOffset + w →
      x.2.bytes <+: (f.mappedByteBuffer.take w).drop (x.1 - f.fileFromOffset) := by
    intro w hw
    rw [List.drop_take]
    exact List.prefix_take_iff.mpr ⟨hbytes, by omega⟩
  by_cases hin : offset < f.fileFromOffset + q.mapedFileSize
  · refine ⟨{ f₁ with wrotePostion := offset % q.mapedFileSize,
                      committedPosition := offset % q.mapedFileSize,
                      forced := min f₁.forced (offset % q.mapedFileSize) },
      List.mem_filterMap.mpr ⟨f₁, hf₁, ?_⟩, hle, hkeep _ ?_⟩
    · exact (if_pos hin).trans (if_pos (by omega : f.fileFromOffset ≤ offset))
    · rw [mod_eq_sub hc hf (by omega) hin]
      simp only
      omega
  · exact ⟨f₁, List.mem_filterMap.mpr ⟨f₁, hf₁, if_neg hin⟩, hle, hkeep _ hend⟩

/-- **Recovery of a slave.** No record that has arrived as a whole is cut off. -/
lemma recoverNormally_keeps (htiled : TiledBy cfg.maxMessageSize log segs)
    (hread : ∀ r ∈ messages segs, r.Readable svc) (hcopy : Copy log q) :
    ∃ q', recoverNormally (recoverCheck cfg svc checkCRC) (reload q) = some q' ∧
      ∀ x ∈ placed (segsFrom q.getMinOffset segs), x.1 + x.2.size ≤ q.getMaxOffset →
        LiesIn q' x := by
  rcases List.eq_nil_or_concat q.mapedFiles with hnil | ⟨front, last, hfiles⟩
  · refine ⟨reload q, by rw [recoverNormally, if_pos (by rw [mapedFiles_reload, hnil]; rfl)], ?_⟩
    intro x _ hmax
    have := x.2.size_pos
    have : q.getMaxOffset = 0 := by simp [MapedFileQueue.getMaxOffset, hnil]
    omega
  rw [List.concat_eq_append] at hfiles
  obtain ⟨offset, ds, hscan, hge, hcover⟩ :=
    @scanFiles_slave cfg svc checkCRC log q segs htiled hread hcopy front last hfiles
  refine ⟨cutAt (reload q) offset, ?_, fun x hx hmax => ?_⟩
  · rw [recoverNormally, if_neg (by rw [mapedFiles_reload, hfiles]; simp), hscan]
    rfl
  obtain ⟨g, hg, hx⟩ := List.mem_flatMap.mp hx
  obtain ⟨hg, hmin⟩ := List.mem_filter.mp hg
  have hmin' : q.getMinOffset ≤ g.start := of_decide_eq_true hmin
  obtain ⟨hle, hend⟩ := place_bounds hx
  obtain ⟨f, hf, hfrom, hpre, hin⟩ :=
    exists_file_of_complete htiled hcopy hg hx (by omega) hmax
  have hlenf := length_written hcopy.chained hcopy.mapped hf
  have hbytes := bytes_isPrefix_drop htiled hg hx hpre (by omega)
  have hwrote := wrote_le hcopy.chained hf
  have hmem : x.2 ∈ g.recs := by
    rw [← map_snd_place g.start g.recs]
    exact List.mem_map_of_mem hx
  refine liesIn_cutAt hcopy.chained hf (by omega) (by omega) ?_
    ((htiled.holds g hg).written _ hmem).length ?_
  · rw [hfiles] at hf
    rcases List.mem_append.mp hf with hf' | hf'
    · -- a file before the last one ends where another one begins
      obtain ⟨i, hi⟩ := List.getElem?_of_mem hf'
      have hlt := (List.getElem?_eq_some_iff.mp hi).1
      have hbefore := end_le_start hcopy.chained hlt (f := f) (g := last)
        (by rw [hfiles, List.getElem?_append_left hlt, hi])
        (by rw [hfiles, List.getElem?_append_right le_rfl, Nat.sub_self]; rfl)
      omega
    · rw [List.mem_singleton.mp hf'] at hfrom hin
      exact hcover g hg hfrom.symm x hx hin
  · rw [hfrom]
    exact hbytes.trans ((written_isPrefix f).drop _)

end Recovery

/-! ### The store of a slave -/

/-- The reader in the store of a slave. -/
abbrev readAsSlave (cfg : MessageStoreConfig) (checkCRC readBody : Bool) :
    Bytes → DispatchRequest × Bytes :=
  checkMessageAndReturnSize cfg.maxMessageSize
    (scheduleMessageServiceOf cfg.scheduleMessageService .SLAVE) checkCRC readBody

/-- **A slave and its master.** The slave understands the record of a message that the master
stored if and only if a file has room for it, topic and properties fit their length fields, and
the message is not delayed; a delayed one is not even read with the right size. A log of records
that it understands is read through: `doReput` comes to the end of the records that have arrived,
and recovery cuts off none of them. -/
theorem slave_understands {cfg : MessageStoreConfig} :
    (∀ {env : Env} {m : MessageExtBrokerInner} {s s' : Store} {put : Put}, LogOK s.commitLog →
      s.putMessage cfg env m = (s', .ok put) → put.result.putMessageStatus = .PUT_OK →
      ∃ m' result, stored cfg env m = some m' ∧ put.result.appendMessageResult = some result ∧
        ∀ checkCRC readBody rest,
          (Understands m' result rest (readAsSlave cfg checkCRC readBody
              (replicated s'.commitLog.mapedFileQueue result ++ rest)) ↔
            recordSize m' + END_FILE_MIN_BLANK_LENGTH ≤ s.commitLog.mapedFileQueue.mapedFileSize ∧
              Fits m' ∧ ¬ Delayed m') ∧
          (Fits m' →
            (readAsSlave cfg checkCRC readBody (replicated s'.commitLog.mapedFileQueue result ++
              rest)).1.msgSize.toInt = result.wroteBytes →
            recordSize m' + END_FILE_MIN_BLANK_LENGTH ≤ s.commitLog.mapedFileQueue.mapedFileSize ∧
              ¬ Delayed m')) ∧
    ∀ {log : MapedFileQueue Bytes} {segs : List Seg}, TiledBy cfg.maxMessageSize log segs →
      (∀ r ∈ messages segs, Fits r.message ∧ ¬ Delayed r.message) →
      ∀ {q : MapedFileQueue Bytes}, Copy log q →
        (∀ o done, Stands log segs ⟨q, o, []⟩ done → ∃ o' requests n,
          (∀ fuel, n ≤ fuel → doReput (slaveCheck cfg) q fuel o = some (o', requests)) ∧
            Complete (segsFrom q.getMinOffset segs) q.getMaxOffset o') ∧
        ∀ checkCRC, ∃ q', recoverNormally (readAsSlave cfg checkCRC true) (reload q) = some q' ∧
          ∀ x ∈ placed (segsFrom q.getMinOffset segs), x.1 + x.2.size ≤ q.getMaxOffset →
            LiesIn q' x := by
  refine ⟨?_, ?_⟩
  · intro env m s s' put hlog hput hok
    obtain ⟨m₁, tagsCode, result, hprep, hl, hres, -⟩ := storePut_ok hput hok
    have hst : stored cfg env m = some (stamp env m₁) := by rw [stored, hprep]; rfl
    have hcrc := ownCRC_stored hst
    refine ⟨stamp env m₁, result, hst, hres, fun checkCRC readBody rest => ⟨?_, fun hfits h => ?_⟩⟩
    · rw [← delayReadable_none]
      exact understands_stored_iff hlog hcrc hl rest
    · rw [← delayReadable_none]
      exact readable_of_msgSize hlog hcrc hl hfits h
  · intro log segs htiled hread q hcopy
    have hread' : ∀ r ∈ messages segs, r.Readable none := fun r hr =>
      ⟨(hread r hr).1, delayReadable_none.mpr (hread r hr).2⟩
    refine ⟨fun o done hstands => ?_, fun checkCRC => recoverNormally_keeps htiled hread' hcopy⟩
    have hinv : Inv none log segs done ⟨q, o, []⟩ := ⟨hcopy, [], by rwa [List.append_nil], rfl⟩
    obtain ⟨s', ⟨⟨n, hends⟩, -, hcomplete⟩, -⟩ := hinv.reput htiled hread'
    obtain ⟨r, hr, hr'⟩ := Option.map_eq_some_iff.mp (hends n le_rfl)
    refine ⟨r.1, r.2, n, fun fuel hfuel => doReput_mono hr hfuel, ?_⟩
    rw [← hr'] at hcomplete
    exact hcomplete

/-! ### A message with a delay level -/

def delayedMessage : MessageExtBrokerInner :=
  (messageTo "TopicTest".toList).setDelayTimeLevel 1

/-- The sizes that master and slave read, and the size that was reported. -/
def sizesRead (r : Store × Except Thrown Put) : Option (ℤ × ℤ × ℕ) :=
  match r with
  | (s, .ok put) => put.result.appendMessageResult.map fun result =>
    ((checkMessageAndReturnSize config.maxMessageSize (some config.scheduleMessageService) false
        false (replicated s.commitLog.mapedFileQueue result)).1.msgSize.toInt,
      (readAsSlave config false false
        (replicated s.commitLog.mapedFileQueue result)).1.msgSize.toInt, result.wroteBytes)
  | _ => none

/-- The master stores the message and reads it back; the slave refuses it. -/
theorem slave_understands_delayed :
    ∃ s' put result n,
      newStore.putMessage config zeroEnv delayedMessage = (s', .ok put) ∧
      put.result.putMessageStatus = .PUT_OK ∧ put.result.appendMessageResult = some result ∧
      result.wroteBytes = n ∧ 0 < n ∧
      (checkMessageAndReturnSize config.maxMessageSize (some config.scheduleMessageService) false
        false (replicated s'.commitLog.mapedFileQueue result)).1.msgSize.toInt = n ∧
      (readAsSlave config false false
        (replicated s'.commitLog.mapedFileQueue result)).1.msgSize.toInt = -1 := by
  obtain ⟨put, hput, hok⟩ := returned_of_status .PUT_OK
    (r := newStore.putMessage config zeroEnv delayedMessage) (by decide +kernel)
  have hread : sizesRead (newStore.putMessage config zeroEnv delayedMessage) =
      some (159, -1, 159) := by decide +kernel
  rw [hput] at hread
  obtain ⟨result, hres, heq⟩ := Option.map_eq_some_iff.mp hread
  simp only [Prod.mk.injEq] at heq
  exact ⟨_, put, result, 159, hput, hok, hres, heq.2.2, by decide, heq.1, heq.2.1⟩

lemma copy_pair : Copy (logOf pair) (logOf pair) where
  chained := tiledBy_pair.chained
  mapped := tiledBy_pair.mapped
  size_eq := rfl
  available := by decide
  agrees := fun _ _ h => h

/-- A message that is not delayed, and a log of two such messages. -/
theorem slave_understands_topicTest :
    (∃ s' put m' result,
      newStore.putMessage config zeroEnv (messageTo "TopicTest".toList) = (s', .ok put) ∧
      put.result.appendMessageResult = some result ∧
      Understands m' result [] (readAsSlave config false false
        (replicated s'.commitLog.mapedFileQueue result ++ []))) ∧
    (∃ o' requests n, ∀ fuel, n ≤ fuel →
      doReput (slaveCheck config) (logOf pair) fuel 0 = some (o', requests)) ∧
    ∃ q', recoverNormally (readAsSlave config true true) (reload (logOf pair)) = some q' ∧
      ∀ x ∈ place 0 pair, LiesIn q' x := by
  obtain ⟨h1, h2⟩ := @slave_understands config
  obtain ⟨h3, h4⟩ := h2 tiledBy_pair readable_pair copy_pair
  refine ⟨?_, ?_, ?_⟩
  · obtain ⟨put, hput, hok⟩ := returned_of_status .PUT_OK
      (r := newStore.putMessage config zeroEnv (messageTo "TopicTest".toList)) (by decide +kernel)
    obtain ⟨m', result, hst, hres, h⟩ := h1 logOK_newStore hput hok
    refine ⟨_, put, m', result, hput, hres, (h false false []).1.mpr ?_⟩
    have hm : (stored config zeroEnv (messageTo "TopicTest".toList)).all (fun m =>
        decide (recordSize m + END_FILE_MIN_BLANK_LENGTH ≤ 1024) &&
          decide (m.topicData.length ≤ 127) && decide (m.propertiesData.length ≤ 32767) &&
            decide (m.topic ≠ SCHEDULE_TOPIC)) := by decide
    rw [hst, Option.all_some] at hm
    simp only [Bool.and_eq_true, decide_eq_true_eq] at hm
    exact ⟨hm.1.1.1, ⟨hm.1.1.2, hm.1.2⟩, fun h => hm.2 h.1⟩
  · obtain ⟨o', requests, n, h, -⟩ := h3 0 [] (.inl ⟨rfl, rfl⟩)
    exact ⟨o', requests, n, h⟩
  · obtain ⟨q', hq', h⟩ := h4 true
    refine ⟨q', hq', fun x hx => h x ?_ ?_⟩
    · refine List.mem_flatMap.mpr ⟨⟨fileOf pair, pair⟩, List.mem_filter.mpr ⟨by simp, ?_⟩, hx⟩
      rfl
    · exact (place_bounds hx).2.trans (by decide +kernel)

end CloudMQ.SlaveStore
