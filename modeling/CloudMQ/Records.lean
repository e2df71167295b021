import CloudMQ.Recover

/-!
Runs of records in a file, and how the recovery scan goes through them.

A record whose topic and properties fit is read with exactly its size, so that the buffer stands
at the next record; a blank record ends the file.
-/

namespace CloudMQ.Records

open CloudMQ.Buffer CloudMQ.Message CloudMQ.Record CloudMQ.Codec CloudMQ.Segment CloudMQ.Chain
open CloudMQ.Extents CloudMQ.CommitLog CloudMQ.Append CloudMQ.Agreement CloudMQ.Recover

/-- A record as `doAppend` writes it. -/
structure Rec where
  message : MessageExtBrokerInner
  bornHost : Bytes
  storeHost : Bytes
  queueOffset : Int64
  physicOffset : ℕ

namespace Rec

variable (r : Rec)

def size : ℕ := recordSize r.message

def bytes : Bytes :=
  recordBytes r.message (Int32.ofNat r.size) r.bornHost r.storeHost r.queueOffset r.physicOffset

/-- Hosts, CRC and size are as `doAppend` makes them. -/
structure Written (maxMessageSize : ℕ) (r : Rec) : Prop where
  bornHost : r.bornHost.length = 8
  storeHost : r.storeHost.length = 8
  crc : OwnCRC r.message
  size_le : r.size ≤ maxMessageSize

def Readable (svc : Option ScheduleMessageService) (r : Rec) : Prop :=
  Fits r.message ∧ DelayReadable svc r.message

/-- The request a reader makes of the record. -/
def request (svc : Option ScheduleMessageService) (r : Rec) : DispatchRequest :=
  requestOf r.message (Int32.ofNat r.size) r.queueOffset r.physicOffset
    ((storedTagsCode svc r.message).getD 0)

lemma size_pos : 0 < r.size := by
  unfold size recordSize
  omega

variable {r}

lemma Written.length {maxMessageSize : ℕ} (h : r.Written maxMessageSize) :
    r.bytes.length = r.size := length_recordBytes h.bornHost h.storeHost

end Rec

def bytesOf (recs : List Rec) : Bytes := recs.flatMap Rec.bytes

def sizes (recs : List Rec) : ℕ := (recs.map Rec.size).sum

@[simp] lemma bytesOf_nil : bytesOf [] = [] := rfl
@[simp] lemma bytesOf_cons (r : Rec) (recs : List Rec) :
    bytesOf (r :: recs) = r.bytes ++ bytesOf recs := rfl
@[simp] lemma sizes_nil : sizes [] = 0 := rfl
@[simp] lemma sizes_cons (r : Rec) (recs : List Rec) :
    sizes (r :: recs) = r.size + sizes recs := by simp [sizes]
lemma sizes_append (recs recs' : List Rec) :
    sizes (recs ++ recs') = sizes recs + sizes recs' := by simp [sizes]
lemma bytesOf_append (recs recs' : List Rec) :
    bytesOf (recs ++ recs') = bytesOf recs ++ bytesOf recs' := by simp [bytesOf]

lemma length_bytesOf {maxMessageSize : ℕ} {recs : List Rec}
    (h : ∀ r ∈ recs, r.Written maxMessageSize) : (bytesOf recs).length = sizes recs := by
  induction recs with
  | nil => rfl
  | cons r recs ih =>
    rw [bytesOf_cons, List.length_append, (h r (by simp)).length,
      ih fun r hr => h r (List.mem_cons_of_mem _ hr), sizes_cons]

section Scan

variable (cfg : MessageStoreConfig) (svc : Option ScheduleMessageService) (checkCRC : Bool)

/-- The check recovery makes: the body is always read. -/
def recoverCheck : Bytes → DispatchRequest × Bytes :=
  checkMessageAndReturnSize cfg.maxMessageSize svc checkCRC true

variable {cfg svc checkCRC}

lemma recoverCheck_lt (b : Bytes) (h : (recoverCheck cfg svc checkCRC b).1.msgSize ≠ -1) :
    (recoverCheck cfg svc checkCRC b).2.length < b.length := check_length_lt h

/-- A readable record is read as a whole. -/
lemma recoverCheck_rec {r : Rec} (hw : r.Written cfg.maxMessageSize) (hr : r.Readable svc)
    (rest : Bytes) :
    recoverCheck cfg svc checkCRC (r.bytes ++ rest) = (Rec.request svc r, rest) := by
  obtain ⟨tagsCode, htags⟩ := Option.isSome_iff_exists.mp (storedTagsCode_isSome.mpr hr.2)
  rw [recoverCheck, Rec.bytes, check_fits hw.crc hw.bornHost hw.storeHost hw.size_le hr.1, htags,
    Rec.request, htags]
  rfl

lemma toInt_request {r : Rec} (hw : r.Written cfg.maxMessageSize) :
    (Rec.request svc r).msgSize.toInt = r.size := by
  have h1 := cfg.maxMessageSize_lt
  have h2 := hw.size_le
  rw [Rec.request, requestOf]
  exact Int32.toInt_ofNat_of_lt (by omega)

lemma scanBuffer_pos {check : Bytes → DispatchRequest × Bytes} {d : DispatchRequest}
    {byteBuffer rest : Bytes} (h : check byteBuffer = (d, rest)) (hpos : 0 < d.msgSize.toInt)
    (n : ℕ) :
    scanBuffer check (n + 1) byteBuffer = (scanBuffer check n rest).map (Scan.cons d) := by
  rw [scanBuffer, h]
  exact if_pos hpos

/-- The scan goes through readable records one by one. -/
lemma scanBuffer_recs {recs : List Rec} (hw : ∀ r ∈ recs, r.Written cfg.maxMessageSize)
    (hr : ∀ r ∈ recs, r.Readable svc) (n : ℕ) (tail : Bytes) :
    scanBuffer (recoverCheck cfg svc checkCRC) (n + recs.length) (bytesOf recs ++ tail) =
      (scanBuffer (recoverCheck cfg svc checkCRC) n tail).map fun s =>
        ⟨sizes recs + s.mapedFileOffset, recs.map (Rec.request svc) ++ s.requests, s.fileEnd⟩ := by
  induction recs with
  | nil =>
    simp
  | cons r recs ih =>
    have hw' := hw r (by simp)
    have hcheck := @recoverCheck_rec cfg svc checkCRC r hw' (hr r (by simp))
      (bytesOf recs ++ tail)
    have hsize := @toInt_request cfg svc r hw'
    have hpos := r.size_pos
    rw [List.length_cons, ← Nat.add_assoc, bytesOf_cons, List.append_assoc,
      scanBuffer_pos hcheck (by omega), ih (fun r hr => hw r (List.mem_cons_of_mem _ hr))
      fun r hr' => hr r (List.mem_cons_of_mem _ hr'), Option.map_map]
    refine Option.map_congr fun s _ => ?_
    simp only [Function.comp, Scan.cons, hsize, sizes_cons, Int.toNat_natCast, List.map_cons,
      List.cons_append, Nat.add_assoc]

lemma scanBuffer_blank (memory : ℕ → UInt8) (n : ℕ) (r : Bytes) :
    scanBuffer (recoverCheck cfg svc checkCRC) 1 (blankBytes memory n ++ r) =
      some ⟨0, [], .blank⟩ := by
  have h : (recoverCheck cfg svc checkCRC (blankBytes memory n ++ r)).1 = .ofSize 0 :=
    check_blankBytes _ _ _ _
  rw [scanBuffer, h]
  rfl

lemma scanBuffer_reject {check : Bytes → DispatchRequest × Bytes} {tail : Bytes}
    (h : (check tail).1.msgSize = -1) : scanBuffer check 1 tail = some ⟨0, [], .error⟩ := by
  rw [scanBuffer, h]
  rfl

/-- A file of readable records is scanned to the end of the last one. -/
lemma scanFile_recs {f : MapedFile Bytes} {recs : List Rec} {tail : Bytes} {fileEnd : FileEnd}
    (hw : ∀ r ∈ recs, r.Written cfg.maxMessageSize) (hr : ∀ r ∈ recs, r.Readable svc)
    (hf : f.mappedByteBuffer = bytesOf recs ++ tail)
    (ht : scanBuffer (recoverCheck cfg svc checkCRC) 1 tail = some ⟨0, [], fileEnd⟩) :
    scanFile (recoverCheck cfg svc checkCRC) f =
      some ⟨sizes recs, recs.map (Rec.request svc), fileEnd⟩ := by
  refine scanFile_of_scanBuffer recoverCheck_lt (n := 1 + recs.length) ?_
  rw [hf, scanBuffer_recs hw hr, ht]
  simp

end Scan

/-! ### Cutting -/

section Cut

variable {q : MapedFileQueue Bytes} {offset : ℕ}

lemma chained_cutAt (h : Chained q) : Chained (cutAt q offset) :=
  Chained.truncateDirtyFiles (q := { q with committedWhere := offset }) h offset

lemma mapped_cutAt (h : Mapped q) : Mapped (cutAt q offset) := by
  intro f hf
  obtain ⟨f₀, hf₀, hf'⟩ := List.mem_filterMap.mp hf
  have hbytes : f.mappedByteBuffer = f₀.mappedByteBuffer := by
    unfold MapedFileQueue.truncateFile at hf'
    split at hf'
    · split at hf'
      · rw [← Option.some.inj hf']
      · exact absurd hf' (by simp)
    · rw [← Option.some.inj hf']
  rw [hbytes]
  exact h f₀ hf₀

lemma mapedFileSize_cutAt : (cutAt q offset).mapedFileSize = q.mapedFileSize := rfl

lemma mapedFiles_cutAt :
    (cutAt q offset).mapedFiles = q.mapedFiles.filterMap (q.truncateFile offset) := rfl

/-- After a cut within the log, the log ends at the cut. -/
lemma getMaxOffset_cutAt (h : Chained q) {first : MapedFile Bytes}
    {rest : List (MapedFile Bytes)} (hfiles : q.mapedFiles = first :: rest)
    (hmin : first.fileFromOffset ≤ offset) (hmax : offset ≤ q.getMaxOffset) :
    (cutAt q offset).getMaxOffset = offset := by
  have h' := h
  rw [Chained, extents, hfiles, List.map_cons] at h'
  rw [getMaxOffset_eq, cutAt, extents_truncateDirtyFiles]
  change endOf ((extents q).filterMap (truncate q.mapedFileSize offset)) = offset
  rw [extents, hfiles, List.map_cons]
  refine (h'.endOf_truncate q.size_pos hmin ?_).2
  rw [← List.map_cons, ← hfiles, ← extents, ← getMaxOffset_eq]
  exact hmax

/-- A file that begins at or before the cut stays, with its contents. -/
lemma truncateFile_of_le {f : MapedFile Bytes} (hle : f.fileFromOffset ≤ offset) :
    ∃ f', q.truncateFile offset f = some f' ∧ f'.fileFromOffset = f.fileFromOffset ∧
      f'.mappedByteBuffer = f.mappedByteBuffer := by
  unfold MapedFileQueue.truncateFile
  rw [if_pos hle]
  split
  · exact ⟨_, rfl, rfl, rfl⟩
  · exact ⟨_, rfl, rfl, rfl⟩

lemma truncateFile_some {f f' : MapedFile Bytes} (h : q.truncateFile offset f = some f') :
    f.fileFromOffset ≤ offset ∧ f'.fileFromOffset = f.fileFromOffset ∧
      f'.mappedByteBuffer = f.mappedByteBuffer := by
  unfold MapedFileQueue.truncateFile at h
  split at h
  · split at h
    · next hle =>
      simp only [Option.some.injEq] at h
      rw [← h]
      exact ⟨hle, rfl, rfl⟩
    · exact absurd h (by simp)
  · next hlt =>
    simp only [Option.some.injEq] at h
    rw [← h]
    exact ⟨by omega, rfl, rfl⟩

/-- No file begins behind the cut. -/
lemma start_le_cutAt {f : MapedFile Bytes} (hf : f ∈ (cutAt q offset).mapedFiles) :
    f.fileFromOffset ≤ offset := by
  rw [mapedFiles_cutAt] at hf
  obtain ⟨g, -, hg⟩ := List.mem_filterMap.mp hf
  obtain ⟨h1, h2, -⟩ := truncateFile_some hg
  omega

/-- Every byte before the cut is kept. -/
lemma sliceAt_cutAt (h : Chained q) {o : ℕ} (hmin : q.getMinOffset ≤ o) (hlt : o < offset)
    (hmax : offset ≤ q.getMaxOffset) : sliceAt (cutAt q offset) o = sliceAt q o := by
  obtain ⟨f, hf, h1, h2⟩ := exists_file h hmin (by omega)
  obtain ⟨f', hf', h3, h4⟩ := @truncateFile_of_le q offset f (by omega)
  have hmem : f' ∈ (cutAt q offset).mapedFiles := List.mem_filterMap.mpr ⟨f, hf, hf'⟩
  rw [sliceAt, sliceAt, find_of_mem h hf h1 h2,
    find_of_mem (chained_cutAt h) hmem (by omega) (by rw [mapedFileSize_cutAt]; omega)]
  simp only [h4, mapedFileSize_cutAt]

end Cut

end CloudMQ.Records
