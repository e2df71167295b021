import CloudMQ.Append

/-!
The commit log as a sequence of bytes: `CommitLog.getData` and `CommitLog.appendData`, which carry
the log from the master to a slave.

Bytes are put behind the end of the last file. They are where they were meant to be when the file
that takes them ends at their offset; `appendData` itself does not compare the two.
-/

namespace CloudMQ.LogBytes

open CloudMQ.Buffer CloudMQ.Extents CloudMQ.Segment CloudMQ.Chain CloudMQ.CommitLog CloudMQ.Append

/-- The part of a file that has been written. -/
def written (f : MapedFile Bytes) : Bytes := f.mappedByteBuffer.take f.wrotePostion

structure SelectMapedBufferResult where
  startOffset : ℕ
  byteBuffer : Bytes

/-- `MapedFile.selectMapedBuffer(pos)` -/
def selectMapedBuffer (f : MapedFile Bytes) (pos : ℕ) : Option SelectMapedBufferResult :=
  if pos < f.wrotePostion ∧ f.available then some ⟨f.fileFromOffset + pos, (written f).drop pos⟩
  else none

/-- `CommitLog.getData(offset, returnFirstOnNotFound)` -/
def getData (q : MapedFileQueue Bytes) (offset : ℕ) (returnFirstOnNotFound : Bool) :
    Option SelectMapedBufferResult :=
  (q.findMapedFileByOffset offset returnFirstOnNotFound).bind fun f =>
    selectMapedBuffer f (offset % q.mapedFileSize)

/-- `MapedFile.appendMessage(byte[])` -/
def appendBytes (size : ℕ) (f : MapedFile Bytes) (data : Bytes) : Option (MapedFile Bytes) :=
  f.append size data.length (overwrite f.mappedByteBuffer f.wrotePostion data)

/-- `CommitLog.appendData`. The answer says whether the bytes were written. -/
def appendData (fresh : Option (ℕ → UInt8)) (startOffset : ℕ) (data : Bytes)
    (q : MapedFileQueue Bytes) : MapedFileQueue Bytes × Bool :=
  match q.getLastMapedFile startOffset (fresh.map (mapMemory q.mapedFileSize)) with
  | (none, q) => (q, false)
  | (some f, q) =>
    match appendBytes q.mapedFileSize f data with
    | some f => (q.setLast f, true)
    | none => (q, false)

/-- The byte of the log at an offset. -/
def byteAt (q : MapedFileQueue Bytes) (o : ℕ) : Option UInt8 :=
  (q.findMapedFileByOffset o false).bind fun f => (written f)[o % q.mapedFileSize]?

/-- The slave has no byte that the master does not have at the same offset. -/
def Agrees (slave master : MapedFileQueue Bytes) : Prop :=
  ∀ o b, byteAt slave o = some b → byteAt master o = some b

variable {q q' : MapedFileQueue Bytes} {f : MapedFile Bytes} {o : ℕ} {b : UInt8}

lemma length_written (hc : Chained q) (hm : Mapped q) (hf : f ∈ q.mapedFiles) :
    (written f).length = f.wrotePostion := by
  rw [written, List.length_take, hm f hf, Nat.min_eq_left (wrote_le hc hf)]

/-- The bytes of a log are those of its files. -/
lemma byteAt_eq_some_iff (hc : Chained q) (hm : Mapped q) :
    byteAt q o = some b ↔
      ∃ f ∈ q.mapedFiles, f.fileFromOffset ≤ o ∧ (written f)[o - f.fileFromOffset]? = some b := by
  constructor
  · intro h
    obtain ⟨f, hf, hb⟩ := Option.bind_eq_some_iff.mp h
    obtain ⟨hmem, hle, hlt⟩ := mem_of_find hc hf
    rw [mod_eq_sub hc hmem hle hlt] at hb
    exact ⟨f, hmem, hle, hb⟩
  · rintro ⟨f, hmem, hle, hb⟩
    have hlen := (List.getElem?_eq_some_iff.mp hb).1
    rw [length_written hc hm hmem] at hlen
    have hlt : o < f.fileFromOffset + q.mapedFileSize := by
      have := wrote_le hc hmem
      omega
    rw [byteAt, find_of_mem hc hmem hle hlt, Option.bind_some, mod_eq_sub hc hmem hle hlt]
    exact hb

lemma byteAt_lt (hc : Chained q) (hm : Mapped q) (h : byteAt q o = some b) :
    o < q.getMaxOffset := by
  obtain ⟨f, hmem, hle, hb⟩ := (byteAt_eq_some_iff hc hm).mp h
  have hlen := (List.getElem?_eq_some_iff.mp hb).1
  rw [length_written hc hm hmem] at hlen
  have := wrote_le_max hc hmem
  omega

/-- An offset of the log lies in the written part of its file. -/
lemma lt_wrote (hc : Chained q) (hf : f ∈ q.mapedFiles)
    (hlt : o < f.fileFromOffset + q.mapedFileSize) (hmax : o < q.getMaxOffset) :
    o < f.fileFromOffset + f.wrotePostion := by
  by_cases hfull : f.wrotePostion = q.mapedFileSize
  · omega
  · rw [max_of_not_full hc hf hfull] at hmax
    exact hmax

/-- There is a byte at every offset of the log. -/
lemma exists_byteAt (hc : Chained q) (hm : Mapped q) (hmin : q.getMinOffset ≤ o)
    (hmax : o < q.getMaxOffset) : ∃ b, byteAt q o = some b := by
  obtain ⟨f, hmem, hle, hlt⟩ := exists_file hc hmin hmax
  have hlen : o - f.fileFromOffset < (written f).length := by
    have := lt_wrote hc hmem hlt hmax
    rw [length_written hc hm hmem]
    omega
  exact ⟨_, (byteAt_eq_some_iff hc hm).mpr ⟨f, hmem, hle, List.getElem?_eq_getElem hlen⟩⟩

/-- The file that `getData` reads has the offset. For offset 0 it may fall back to the first file,
which is that of offset 0 when there is one. -/
lemma find_covers (hc : Chained q) (hmin : o = 0 → q.getMinOffset ≤ 0)
    (hf : q.findMapedFileByOffset o (o = 0) = some f) :
    f ∈ q.mapedFiles ∧ f.fileFromOffset ≤ o ∧ o < f.fileFromOffset + q.mapedFileSize := by
  by_cases hzero : o = 0
  · have hmin := hmin hzero
    unfold MapedFileQueue.getMinOffset at hmin
    cases hfiles : q.mapedFiles with
    | nil => simp [MapedFileQueue.findMapedFileByOffset, hfiles] at hf
    | cons first rest =>
      simp only [hfiles, List.head?_cons] at hmin
      have hfirst : first ∈ q.mapedFiles := by simp [hfiles]
      have hpos := q.size_pos
      have hle : first.fileFromOffset ≤ o := by omega
      have hlt : o < first.fileFromOffset + q.mapedFileSize := by omega
      rw [find_of_mem hc hfirst hle hlt, Option.some.injEq] at hf
      subst hf
      exact ⟨by simp, hle, hlt⟩
  · simp only [hzero, decide_false] at hf
    exact mem_of_find hc hf

/-- What `getData` gives is the written part of a file from the offset on. -/
lemma getData_eq_some (hc : Chained q) (hmin : o = 0 → q.getMinOffset ≤ 0)
    {result : SelectMapedBufferResult} (h : getData q o (o = 0) = some result) :
    ∃ f ∈ q.mapedFiles, f.fileFromOffset ≤ o ∧ o < f.fileFromOffset + f.wrotePostion ∧
      result = ⟨o, (written f).drop (o - f.fileFromOffset)⟩ := by
  obtain ⟨f, hf, hsel⟩ := Option.bind_eq_some_iff.mp h
  obtain ⟨hmem, hle, hlt⟩ := find_covers hc hmin hf
  rw [mod_eq_sub hc hmem hle hlt] at hsel
  unfold selectMapedBuffer at hsel
  split at hsel
  · next hpos =>
    refine ⟨f, hmem, hle, by omega, ?_⟩
    rw [← Option.some.inj hsel, Nat.add_sub_cancel' hle]
  · exact absurd hsel (by simp)

lemma getData_byteAt (hc : Chained q) (hm : Mapped q) (hmin : o = 0 → q.getMinOffset ≤ 0)
    {result : SelectMapedBufferResult} (h : getData q o (o = 0) = some result) {i : ℕ}
    (hi : result.byteBuffer[i]? = some b) : byteAt q (o + i) = some b := by
  obtain ⟨f, hmem, hle, -, rfl⟩ := getData_eq_some hc hmin h
  simp only [List.getElem?_drop] at hi
  refine (byteAt_eq_some_iff hc hm).mpr ⟨f, hmem, by omega, ?_⟩
  rwa [show o + i - f.fileFromOffset = o - f.fileFromOffset + i by omega]

lemma getData_lt_max (hc : Chained q) (hmin : q.getMinOffset ≤ o)
    {result : SelectMapedBufferResult} (h : getData q o (o = 0) = some result) :
    o < q.getMaxOffset := by
  obtain ⟨f, hf, -, hlt, -⟩ :=
    getData_eq_some hc (fun hzero => by rw [hzero] at hmin; exact hmin) h
  exact hlt.trans_le (wrote_le_max hc hf)

/-- When there is nothing to read, the log ends at the offset or before it. -/
lemma max_le_of_getData (hc : Chained q) (hav : ∀ f ∈ q.mapedFiles, f.available)
    (hmin : q.getMinOffset ≤ o) (h : getData q o (o = 0) = none) : q.getMaxOffset ≤ o := by
  by_contra hlt
  obtain ⟨f, hmem, hle, hlt'⟩ := exists_file hc hmin (by omega)
  have hwrote := lt_wrote hc hmem hlt' (by omega)
  rw [getData, find_of_mem hc hmem hle hlt', Option.bind_some, selectMapedBuffer,
    mod_eq_sub hc hmem hle hlt', if_pos ⟨by omega, hav f hmem⟩] at h
  exact absurd h (by simp)

/-- A file of the slave is the beginning of the master's file at the same place. -/
lemma written_prefix (hc : Chained q) (hm : Mapped q) (hc' : Chained q')
    (h : Agrees q q') {f' : MapedFile Bytes} (hf : f ∈ q.mapedFiles) (hf' : f' ∈ q'.mapedFiles)
    (hsize : q'.mapedFileSize = q.mapedFileSize)
    (hfrom : f'.fileFromOffset = f.fileFromOffset) : written f <+: written f' := by
  rw [List.prefix_iff_getElem?]
  intro i hi
  have hb := h (f.fileFromOffset + i) _ ((byteAt_eq_some_iff hc hm).mpr
    ⟨f, hf, Nat.le_add_right _ _, by
      rw [Nat.add_sub_cancel_left]
      exact List.getElem?_eq_getElem hi⟩)
  rw [length_written hc hm hf] at hi
  have hlt := wrote_le hc hf
  have hfind := find_of_mem hc' hf' (o := f.fileFromOffset + i) (by omega)
    (by rw [hfrom, hsize]; omega) false
  rw [byteAt, hfind, Option.bind_some, mod_eq_sub hc' hf' (by omega)
    (by rw [hfrom, hsize]; omega), hfrom, Nat.add_sub_cancel_left] at hb
  exact hb

/-! ### Appending -/

/-- Where the bytes of an append are put. -/
def putAt (q : MapedFileQueue Bytes) (startOffset : ℕ) : ℕ :=
  (q.createOffset startOffset).getD q.getMaxOffset

lemma putAt_of_nil {startOffset : ℕ} (h : q.mapedFiles = []) :
    putAt q startOffset = startOffset - startOffset % q.mapedFileSize := by
  simp [putAt, MapedFileQueue.createOffset, h]

/-- A log that has files grows at its end. -/
lemma putAt_of_ne_nil {startOffset : ℕ} (h : q.mapedFiles ≠ []) :
    putAt q startOffset = q.getMaxOffset := by
  obtain ⟨last, hlast⟩ : ∃ last, q.mapedFiles.getLast? = some last :=
    ⟨_, List.getLast?_eq_some_getLast h⟩
  simp only [putAt, MapedFileQueue.createOffset, MapedFileQueue.getMaxOffset, hlast]
  split
  · next hfull =>
    simp only [MapedFile.isFull, decide_eq_true_eq] at hfull
    rw [Option.getD_some, hfull]
  · rfl

lemma max_le_putAt (startOffset : ℕ) : q.getMaxOffset ≤ putAt q startOffset := by
  by_cases h : q.mapedFiles = []
  · simp [MapedFileQueue.getMaxOffset, h]
  · rw [putAt_of_ne_nil h]

/-- The bytes after a change to the list of files that leaves what is written. -/
lemma byteAt_of_files {files : List (MapedFile Bytes)} {more : Bytes} (hc : Chained q)
    (hm : Mapped q) (hc' : Chained q') (hm' : Mapped q') {start : ℕ}
    (hq : q.mapedFiles = files ++ [f]) {f' : MapedFile Bytes} (hq' : q'.mapedFiles = files ++ [f'])
    (hfrom : f'.fileFromOffset = f.fileFromOffset) (hwritten : written f' = written f ++ more)
    (hstart : start = f.fileFromOffset + f.wrotePostion) (o : ℕ) (b : UInt8) :
    byteAt q' o = some b ↔
      byteAt q o = some b ∨ (start ≤ o ∧ more[o - start]? = some b) := by
  have hlen : (written f).length = f.wrotePostion := length_written hc hm (by simp [hq])
  rw [byteAt_eq_some_iff hc' hm', byteAt_eq_some_iff hc hm, hq, hq']
  simp only [List.mem_append, List.mem_singleton, or_and_right, exists_or, exists_eq_left, hfrom,
    hwritten]
  rw [or_assoc]
  refine or_congr_right ?_
  rw [List.getElem?_append, hlen, hstart]
  constructor
  · rintro ⟨hle, hb⟩
    split at hb
    · exact .inl ⟨hle, hb⟩
    · refine .inr ⟨by omega, ?_⟩
      rwa [Nat.sub_sub] at hb
  · rintro (⟨hle, hb⟩ | ⟨hle, hb⟩)
    · have := (List.getElem?_eq_some_iff.mp hb).1
      rw [if_pos (by omega)]
      exact ⟨hle, hb⟩
    · rw [if_neg (by omega), Nat.sub_sub]
      exact ⟨by omega, hb⟩

/-- The file that an append goes to is the last one, and to look for it writes nothing. -/
lemma getLastMapedFile_opened {fresh : Option (ℕ → UInt8)} {startOffset : ℕ} (hc : Chained q)
    (hm : Mapped q)
    (h : q.getLastMapedFile startOffset (fresh.map (mapMemory q.mapedFileSize)) = (some f, q')) :
    (Chained q' ∧ Mapped q' ∧ q'.mapedFileSize = q.mapedFileSize) ∧
      q'.mapedFiles.getLast? = some f ∧ q'.getMaxOffset = putAt q startOffset ∧
      (q.createOffset startOffset = none ∨ fresh.isSome) ∧
      ∀ o b, byteAt q' o = some b ↔ byteAt q o = some b := by
  obtain ⟨hlast, hsize, -, hlen, hcases⟩ := getLastMapedFile_some hc hm (length_fresh fresh) h
  have hc' : Chained q' := by
    have := hc.getLastMapedFile startOffset (fresh.map (mapMemory q.mapedFileSize))
    rwa [h] at this
  unfold MapedFileQueue.getLastMapedFile at h
  cases hcr : q.createOffset startOffset with
  | none =>
    simp only [hcr, Prod.mk.injEq] at h
    obtain ⟨-, rfl⟩ := h
    refine ⟨⟨hc, hm, rfl⟩, hlast, ?_, .inl rfl, fun _ _ => Iff.rfl⟩
    rw [putAt, hcr, Option.getD_none]
  | some createOffset =>
    cases hfresh : fresh with
    | none => simp [hcr, hfresh] at h
    | some contents =>
      simp only [hcr, hfresh, Option.map_some, Prod.mk.injEq, Option.some.injEq] at h
      obtain ⟨rfl, rfl⟩ := h
      have hm' : Mapped { q with mapedFiles := q.mapedFiles ++ [
          { fileFromOffset := createOffset, mappedByteBuffer := mapMemory q.mapedFileSize contents,
            firstCreateInQueue := q.mapedFiles.isEmpty }] } := by
        intro g hg
        rcases List.mem_append.mp hg with hg | hg
        · exact hm g hg
        · rw [List.mem_singleton.mp hg]
          exact hlen
      refine ⟨⟨hc', hm', rfl⟩, hlast, ?_, .inr rfl, fun o b => ?_⟩
      · rw [MapedFileQueue.getMaxOffset, hlast, putAt, hcr]
        rfl
      · rw [byteAt_eq_some_iff hc' hm', byteAt_eq_some_iff hc hm]
        simp [or_and_right, exists_or, written]

/-- Bytes that are put into the last file. -/
lemma setLast_grown {data : Bytes} {f' : MapedFile Bytes} (hc : Chained q) (hm : Mapped q)
    (hlast : q.mapedFiles.getLast? = some f) (h : appendBytes q.mapedFileSize f data = some f') :
    (Chained (q.setLast f') ∧ Mapped (q.setLast f')) ∧
      (q.setLast f').getMaxOffset = q.getMaxOffset + data.length ∧
      ∀ o b, byteAt (q.setLast f') o = some b ↔
        byteAt q o = some b ∨ (q.getMaxOffset ≤ o ∧ data[o - q.getMaxOffset]? = some b) := by
  unfold appendBytes MapedFile.append at h
  split at h
  · next hle =>
    obtain rfl := Option.some.inj h
    have hmem := List.mem_of_getLast? hlast
    have hlen := hm f hmem
    have hmax : q.getMaxOffset = f.fileFromOffset + f.wrotePostion := by
      rw [MapedFileQueue.getMaxOffset, hlast]
    have hc' := hc.setLast hlast (f := { f with
      mappedByteBuffer := overwrite f.mappedByteBuffer f.wrotePostion data
      wrotePostion := f.wrotePostion + data.length }) rfl hle
    have hm' : Mapped (q.setLast { f with
        mappedByteBuffer := overwrite f.mappedByteBuffer f.wrotePostion data
        wrotePostion := f.wrotePostion + data.length }) := by
      refine forall_mem_setLast hm ?_
      simp only
      rw [length_overwrite (by rw [hlen]; exact hle), hlen]
      rfl
    refine ⟨⟨hc', hm'⟩, ?_, ?_⟩
    · simp only [MapedFileQueue.getMaxOffset, MapedFileQueue.setLast, List.getLast?_append,
        List.getLast?_singleton, Option.some_or, hlast]
      omega
    · refine byteAt_of_files hc hm hc' hm' (List.dropLast_append_getLast? f hlast).symm rfl rfl ?_
        hmax
      have hle' : f.wrotePostion ≤ f.mappedByteBuffer.length := by omega
      simp only [written]
      rw [overwrite, List.append_assoc, List.take_append, List.take_of_length_le (by simp),
        List.length_take, Nat.min_eq_left hle', Nat.add_sub_cancel_left, List.take_left' rfl]
  · exact absurd h (by simp)

lemma getMinOffset_setLast {f' : MapedFile Bytes} (hlast : q.mapedFiles.getLast? = some f)
    (hfrom : f'.fileFromOffset = f.fileFromOffset) :
    (q.setLast f').getMinOffset = q.getMinOffset := by
  have hq := List.dropLast_append_getLast? f hlast
  simp only [MapedFileQueue.getMinOffset, MapedFileQueue.setLast]
  generalize q.mapedFiles.dropLast = files at hq ⊢
  rw [← hq]
  cases files with
  | nil => simp [hfrom]
  | cons g rest => simp

/-- A new file is the first one only when there was none. -/
lemma getMinOffset_getLastMapedFile (startOffset : ℕ) (fresh : Option Bytes) :
    (q.getLastMapedFile startOffset fresh).2.getMinOffset = q.getMinOffset ∨
      q.mapedFiles = [] ∧ (q.getLastMapedFile startOffset fresh).2.getMinOffset =
        (startOffset - startOffset % q.mapedFileSize : ℕ) := by
  unfold MapedFileQueue.getLastMapedFile
  split
  · exact .inl rfl
  · next c hc =>
    split
    · exact .inl rfl
    · cases hfiles : q.mapedFiles with
      | nil =>
        simp only [MapedFileQueue.createOffset, hfiles, List.getLast?_nil,
          Option.some.injEq] at hc
        exact .inr ⟨rfl, by simp [MapedFileQueue.getMinOffset, hc]⟩
      | cons g rest => exact .inl (by simp [MapedFileQueue.getMinOffset, hfiles])

/-- Where the log begins after an append. -/
lemma getMinOffset_appendData (fresh : Option (ℕ → UInt8)) (startOffset : ℕ) (data : Bytes)
    (hc : Chained q) (hm : Mapped q) :
    (appendData fresh startOffset data q).1.getMinOffset = q.getMinOffset ∨
      q.mapedFiles = [] ∧ (appendData fresh startOffset data q).1.getMinOffset =
        (startOffset - startOffset % q.mapedFileSize : ℕ) := by
  have hmin := @getMinOffset_getLastMapedFile q startOffset (fresh.map (mapMemory q.mapedFileSize))
  unfold appendData
  rcases hget : q.getLastMapedFile startOffset (fresh.map (mapMemory q.mapedFileSize)) with
    ⟨_ | f, q₁⟩
  · rwa [hget] at hmin
  · rw [hget] at hmin
    obtain ⟨-, hlast, -⟩ := getLastMapedFile_opened hc hm hget
    simp only
    split
    · next f' happ =>
      simp only
      rw [getMinOffset_setLast hlast]
      · exact hmin
      · unfold appendBytes MapedFile.append at happ
        split at happ
        · rw [← Option.some.inj happ]
        · exact absurd happ (by simp)
    · exact hmin

/-- An append shuts no file down. -/
lemma available_appendData (fresh : Option (ℕ → UInt8)) (startOffset : ℕ) (data : Bytes)
    (h : ∀ f ∈ q.mapedFiles, f.available) :
    ∀ f ∈ (appendData fresh startOffset data q).1.mapedFiles, f.available := by
  have hget : (∀ f ∈ (q.getLastMapedFile startOffset
        (fresh.map (mapMemory q.mapedFileSize))).2.mapedFiles, f.available) ∧
      ∀ f ∈ (q.getLastMapedFile startOffset (fresh.map (mapMemory q.mapedFileSize))).1,
        f.available := by
    unfold MapedFileQueue.getLastMapedFile
    split
    · exact ⟨h, fun f hf => h f (List.mem_of_getLast? hf)⟩
    · split
      · exact ⟨h, by simp⟩
      · refine ⟨fun f hf => ?_, fun f hf => ?_⟩
        · rcases List.mem_append.mp hf with hf | hf
          · exact h f hf
          · rw [List.mem_singleton.mp hf]
        · rw [← Option.some.inj hf]
  unfold appendData
  rcases hq : q.getLastMapedFile startOffset (fresh.map (mapMemory q.mapedFileSize)) with
    ⟨_ | f, q₁⟩
  · rw [hq] at hget
    exact hget.1
  · rw [hq] at hget
    simp only
    split
    · next f' happ =>
      refine forall_mem_setLast hget.1 ?_
      unfold appendBytes MapedFile.append at happ
      split at happ
      · rw [← Option.some.inj happ]
        exact hget.2 f rfl
      · exact absurd happ (by simp)
    · exact hget.1

/-- **What `appendData` does.** It leaves the bytes of the log, or puts the new ones where the
file that takes them ends. -/
lemma appendData_cases (fresh : Option (ℕ → UInt8)) (startOffset : ℕ) (data : Bytes)
    (hc : Chained q) (hm : Mapped q) (hq' : q' = (appendData fresh startOffset data q).1) :
    (Chained q' ∧ Mapped q' ∧ q'.mapedFileSize = q.mapedFileSize) ∧
    ((q'.getMaxOffset = q.getMaxOffset ∨ q'.getMaxOffset = putAt q startOffset) ∧
        (∀ o b, byteAt q' o = some b ↔ byteAt q o = some b) ∨
      (q.createOffset startOffset = none ∨ fresh.isSome) ∧
        q'.getMaxOffset = putAt q startOffset + data.length ∧
        ∀ o b, byteAt q' o = some b ↔ byteAt q o = some b ∨
          (putAt q startOffset ≤ o ∧ data[o - putAt q startOffset]? = some b)) := by
  subst hq'
  unfold appendData
  rcases hget : q.getLastMapedFile startOffset (fresh.map (mapMemory q.mapedFileSize)) with
    ⟨_ | f, q₁⟩
  · have : q₁ = q := by
      unfold MapedFileQueue.getLastMapedFile at hget
      split at hget
      · exact (Prod.mk.inj hget).2.symm
      · split at hget
        · exact (Prod.mk.inj hget).2.symm
        · exact absurd (Prod.mk.inj hget).1 (by simp)
    subst this
    exact ⟨⟨hc, hm, rfl⟩, .inl ⟨.inl rfl, fun _ _ => Iff.rfl⟩⟩
  · obtain ⟨⟨hc', hm', hsize⟩, hlast, hmax, hfile, hbytes⟩ := getLastMapedFile_opened hc hm hget
    simp only
    cases happ : appendBytes q₁.mapedFileSize f data with
    | none => exact ⟨⟨hc', hm', hsize⟩, .inl ⟨.inr hmax, hbytes⟩⟩
    | some f' =>
      obtain ⟨⟨hc'', hm''⟩, hmax', hbytes'⟩ := setLast_grown hc' hm' hlast happ
      refine ⟨⟨hc'', hm'', hsize⟩, .inr ⟨hfile, ?_, fun o b => ?_⟩⟩
      · simp only
        rw [hmax', hmax]
      · simp only
        rw [hbytes', hbytes, hmax]

end CloudMQ.LogBytes
