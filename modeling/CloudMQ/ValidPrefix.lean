import CloudMQ.Records

/-!
Recovery keeps exactly the valid prefix of the log.

The files that are scanned hold records and blank records up to some point, and something the
reader refuses behind it. Following the reader from record to record, by the sizes it reports,
leads to the end of the last record; recovery cuts the log there. This rests on the reader
consuming what it reports, which it does for records whose topic and properties fit.
-/

namespace CloudMQ.ValidPrefix

open CloudMQ.Buffer CloudMQ.Message CloudMQ.Record CloudMQ.Codec CloudMQ.Segment CloudMQ.Chain
open CloudMQ.Extents CloudMQ.CommitLog CloudMQ.Append CloudMQ.Agreement CloudMQ.Recover
open CloudMQ.Records

/-! ### Following the reader -/

section Follow

variable (check : Bytes → DispatchRequest × Bytes)

/-- What the reader answers at a position of a file. -/
def sizeAt (f : MapedFile Bytes) (pos : ℕ) : Int32 :=
  (check (f.mappedByteBuffer.drop pos)).1.msgSize

/-- From a record to what follows it, or from a blank record to the next file. The state is the
list of files from the current one on, and the position in it. -/
inductive Jump : List (MapedFile Bytes) × ℕ → List (MapedFile Bytes) × ℕ → Prop
  | record {f : MapedFile Bytes} {files : List (MapedFile Bytes)} {pos : ℕ}
      (h : 0 < (sizeAt check f pos).toInt) :
      Jump (f :: files, pos) (f :: files, pos + (sizeAt check f pos).toInt.toNat)
  | blank {f g : MapedFile Bytes} {files : List (MapedFile Bytes)} {pos : ℕ}
      (h : sizeAt check f pos = 0) : Jump (f :: g :: files, pos) (g :: files, 0)

/-- The reader fails, or the last file ends with a blank record. -/
inductive Stuck : List (MapedFile Bytes) × ℕ → ℕ → Prop
  | error {f : MapedFile Bytes} {files : List (MapedFile Bytes)} {pos : ℕ}
      (h : sizeAt check f pos = -1) : Stuck (f :: files, pos) (f.fileFromOffset + pos)
  | last {f : MapedFile Bytes} {pos : ℕ} (h : sizeAt check f pos = 0) :
      Stuck ([f], pos) (f.fileFromOffset + pos)

/-- Following the reader through the files leads to the offset. -/
def Followed (files : List (MapedFile Bytes)) (offset : ℕ) : Prop :=
  ∃ s, Relation.ReflTransGen (Jump check) (files, 0) s ∧ Stuck check s offset

end Follow

/-! ### What the scanned files hold -/

/-- The records of a file with their offsets. -/
def place : ℕ → List Rec → List (ℕ × Rec)
  | _, [] => []
  | start, r :: recs => (start, r) :: place (start + r.size) recs

/-- Records and blank records as `doAppend` writes them, up to where the reader fails, or up to
the blank record of the last file; then the offset behind the last record. -/
inductive Scanned (maxMessageSize : ℕ) (check : Bytes → DispatchRequest × Bytes) :
    List (MapedFile Bytes) → List (ℕ × Rec) → ℕ → Prop
  | torn {f : MapedFile Bytes} {files : List (MapedFile Bytes)} {recs : List Rec} {tail : Bytes}
      (hw : ∀ r ∈ recs, r.Written maxMessageSize)
      (hf : f.mappedByteBuffer = bytesOf recs ++ tail) (ht : (check tail).1.msgSize = -1) :
      Scanned maxMessageSize check (f :: files) (place f.fileFromOffset recs)
        (f.fileFromOffset + sizes recs)
  | sealed {f g : MapedFile Bytes} {files : List (MapedFile Bytes)} {recs : List Rec}
      {memory : ℕ → UInt8} {n offset : ℕ} {placed : List (ℕ × Rec)}
      (hw : ∀ r ∈ recs, r.Written maxMessageSize)
      (hf : f.mappedByteBuffer = bytesOf recs ++ blankBytes memory n)
      (h : Scanned maxMessageSize check (g :: files) placed offset) :
      Scanned maxMessageSize check (f :: g :: files) (place f.fileFromOffset recs ++ placed)
        offset
  | full {f : MapedFile Bytes} {recs : List Rec} {memory : ℕ → UInt8} {n : ℕ}
      (hw : ∀ r ∈ recs, r.Written maxMessageSize)
      (hf : f.mappedByteBuffer = bytesOf recs ++ blankBytes memory n) :
      Scanned maxMessageSize check [f] (place f.fileFromOffset recs)
        (f.fileFromOffset + sizes recs)

lemma mem_place (start : ℕ) {recs : List Rec} {r : Rec} (h : r ∈ recs) :
    ∃ p, (p, r) ∈ place start recs := by
  induction recs generalizing start with
  | nil => simp at h
  | cons r' recs ih =>
    rcases List.mem_cons.mp h with rfl | h
    · exact ⟨start, by simp [place]⟩
    · obtain ⟨p, hp⟩ := ih (start + r'.size) h
      exact ⟨p, List.mem_cons_of_mem _ hp⟩

/-- A placed record lies within the records of its file, and its bytes stand there. -/
lemma place_spec {maxMessageSize start : ℕ} {recs : List Rec} {p : ℕ} {r : Rec} (tail : Bytes)
    (hw : ∀ r ∈ recs, r.Written maxMessageSize) (h : (p, r) ∈ place start recs) :
    start ≤ p ∧ p + r.size ≤ start + sizes recs ∧
      ∃ rest, (bytesOf recs ++ tail).drop (p - start) = r.bytes ++ rest := by
  induction recs generalizing start with
  | nil => simp [place] at h
  | cons r' recs ih =>
    rcases List.mem_cons.mp h with heq | h
    · simp only [Prod.mk.injEq] at heq
      obtain ⟨rfl, rfl⟩ := heq
      refine ⟨le_rfl, by rw [sizes_cons]; omega, bytesOf recs ++ tail, ?_⟩
      rw [Nat.sub_self, List.drop_zero, bytesOf_cons, List.append_assoc]
    · obtain ⟨h1, h2, rest, h3⟩ := ih (fun r hr => hw r (List.mem_cons_of_mem _ hr)) h
      refine ⟨by omega, by rw [sizes_cons]; omega, rest, ?_⟩
      have hlen := (hw r' (by simp)).length
      rw [bytesOf_cons, List.append_assoc, List.drop_append,
        List.drop_of_length_le (by omega), List.nil_append, hlen,
        show p - start - r'.size = p - (start + r'.size) by omega]
      exact h3

section Scanning

variable {cfg : MessageStoreConfig} {svc : Option ScheduleMessageService} {checkCRC : Bool}

/-- Following the reader through readable records. -/
lemma follow_recs {f : MapedFile Bytes} (files : List (MapedFile Bytes)) {recs : List Rec}
    {tail : Bytes} (pos : ℕ) (hw : ∀ r ∈ recs, r.Written cfg.maxMessageSize)
    (hr : ∀ r ∈ recs, r.Readable svc)
    (hf : f.mappedByteBuffer.drop pos = bytesOf recs ++ tail) :
    Relation.ReflTransGen (Jump (recoverCheck cfg svc checkCRC)) (f :: files, pos)
      (f :: files, pos + sizes recs) ∧
      f.mappedByteBuffer.drop (pos + sizes recs) = tail := by
  induction recs generalizing pos with
  | nil => exact ⟨.refl, by simpa using hf⟩
  | cons r recs ih =>
    have hw' := hw r (by simp)
    have hsize := @toInt_request cfg svc r hw'
    have hpos := r.size_pos
    have hcheck : sizeAt (recoverCheck cfg svc checkCRC) f pos = (Rec.request svc r).msgSize := by
      rw [sizeAt, hf, bytesOf_cons, List.append_assoc, recoverCheck_rec hw' (hr r (by simp))]
    have hdrop : f.mappedByteBuffer.drop (pos + r.size) = bytesOf recs ++ tail := by
      rw [← List.drop_drop, hf, bytesOf_cons, List.append_assoc]
      exact List.drop_left' hw'.length
    obtain ⟨h1, h2⟩ := ih (pos + r.size) (fun r hr => hw r (List.mem_cons_of_mem _ hr))
      (fun r hr' => hr r (List.mem_cons_of_mem _ hr')) hdrop
    have hjump : Jump (recoverCheck cfg svc checkCRC) (f :: files, pos)
        (f :: files, pos + r.size) := by
      have := @Jump.record (recoverCheck cfg svc checkCRC) f files pos
        (by rw [hcheck, hsize]; omega)
      rwa [hcheck, hsize, Int.toNat_natCast] at this
    rw [sizes_cons, ← Nat.add_assoc]
    exact ⟨.head hjump h1, h2⟩

lemma sizeAt_blank {f : MapedFile Bytes} {memory : ℕ → UInt8} {n pos : ℕ}
    (h : f.mappedByteBuffer.drop pos = blankBytes memory n) :
    sizeAt (recoverCheck cfg svc checkCRC) f pos = 0 := by
  have hb := @check_blankBytes svc checkCRC true cfg.maxMessageSize memory n []
  rw [List.append_nil] at hb
  rw [sizeAt, h, recoverCheck, hb]
  rfl

/-- The scan finds the offset that following the reader leads to. -/
lemma scanFiles_scanned {files : List (MapedFile Bytes)} {placed : List (ℕ × Rec)} {offset : ℕ}
    (h : Scanned cfg.maxMessageSize (recoverCheck cfg svc checkCRC) files placed offset)
    (hr : ∀ x ∈ placed, x.2.Readable svc) :
    (∃ ds, scanFiles (recoverCheck cfg svc checkCRC) files = some (offset, ds)) ∧
      Followed (recoverCheck cfg svc checkCRC) files offset := by
  have hrecs : ∀ {start : ℕ} {recs : List Rec}, (∀ x ∈ place start recs, x.2.Readable svc) →
      ∀ r ∈ recs, r.Readable svc := by
    intro start recs h r hr
    obtain ⟨p, hp⟩ := mem_place start hr
    exact h _ hp
  induction h with
  | @torn f files recs tail hw hf ht =>
    have hscan := scanFile_recs hw (hrecs hr) hf (scanBuffer_reject ht)
    obtain ⟨h1, h2⟩ := follow_recs files 0 hw (hrecs hr) hf
    rw [Nat.zero_add] at h1 h2
    refine ⟨?_, _, h1, .error (by rw [sizeAt, h2, ht])⟩
    cases files with
    | nil => exact ⟨_, by rw [scanFiles, hscan]; rfl⟩
    | cons g files => exact ⟨_, by rw [scanFiles, hscan]; rfl⟩
  | @sealed f g files recs memory n offset placed hw hf h ih =>
    have hr1 := hrecs fun x hx => hr x (List.mem_append_left _ hx)
    obtain ⟨⟨ds, hds⟩, s, h3, h4⟩ := ih fun x hx => hr x (List.mem_append_right _ hx)
    have hscan : scanFile (recoverCheck cfg svc checkCRC) f =
        some ⟨sizes recs, recs.map (Rec.request svc), .blank⟩ :=
      scanFile_recs hw hr1 hf (by simpa using scanBuffer_blank memory n [])
    obtain ⟨h1, h2⟩ := follow_recs (g :: files) 0 hw hr1 hf
    rw [Nat.zero_add] at h1 h2
    refine ⟨⟨_, by rw [scanFiles, hscan, Option.bind_some, hds]; rfl⟩, s, ?_, h4⟩
    exact (h1.tail (Jump.blank (sizeAt_blank h2))).trans h3
  | @full f recs memory n hw hf =>
    have hscan : scanFile (recoverCheck cfg svc checkCRC) f =
        some ⟨sizes recs, recs.map (Rec.request svc), .blank⟩ :=
      scanFile_recs hw (hrecs hr) hf (by simpa using scanBuffer_blank memory n [])
    obtain ⟨h1, h2⟩ := follow_recs [] 0 hw (hrecs hr) hf
    rw [Nat.zero_add] at h1 h2
    exact ⟨⟨_, by rw [scanFiles, hscan]; rfl⟩, _, h1, .last (sizeAt_blank h2)⟩

end Scanning

/-! ### Where the scan ends -/

section Bounds

variable {maxMessageSize : ℕ} {check : Bytes → DispatchRequest × Bytes} {q : MapedFileQueue Bytes}

/-- The offset lies in one of the scanned files or at its end. -/
lemma scanned_offset (hm : Mapped q) {files : List (MapedFile Bytes)}
    {placed : List (ℕ × Rec)} {offset : ℕ} (hfiles : files <:+ q.mapedFiles)
    (h : Scanned maxMessageSize check files placed offset) :
    ∃ f ∈ files, f.fileFromOffset ≤ offset ∧ offset ≤ f.fileFromOffset + q.mapedFileSize := by
  have hbound : ∀ {f : MapedFile Bytes} {recs : List Rec} {tail : Bytes}, f ∈ q.mapedFiles →
      (∀ r ∈ recs, r.Written maxMessageSize) → f.mappedByteBuffer = bytesOf recs ++ tail →
      sizes recs ≤ q.mapedFileSize := by
    intro f recs tail hf hw hbytes
    have := congrArg List.length hbytes
    rw [hm f hf, List.length_append, length_bytesOf hw] at this
    omega
  induction h with
  | @torn f files recs tail hw hf ht =>
    have := hbound (hfiles.subset (by simp)) hw hf
    exact ⟨f, by simp, by omega, by omega⟩
  | @sealed f g files recs memory n offset placed hw hf h ih =>
    obtain ⟨f', hf', h1, h2⟩ := ih ((List.suffix_cons f _).trans hfiles)
    exact ⟨f', List.mem_cons_of_mem _ hf', h1, h2⟩
  | @full f recs memory n hw hf =>
    have := hbound (hfiles.subset (by simp)) hw hf
    exact ⟨f, by simp, by omega, by omega⟩

lemma start_le_of_suffix (hc : Chained q) {f g : MapedFile Bytes}
    {files : List (MapedFile Bytes)} (hfiles : f :: files <:+ q.mapedFiles)
    (hg : g ∈ f :: files) : f.fileFromOffset ≤ g.fileFromOffset := by
  have h' : Contiguous q.mapedFileSize ((f :: files).map extent) :=
    hc.part (hfiles.map extent).isInfix
  obtain ⟨i, hi⟩ := List.getElem?_of_mem (List.mem_map_of_mem (f := extent) hg)
  rw [List.map_cons] at h' hi
  have : g.fileFromOffset = f.fileFromOffset + i * q.mapedFileSize := h'.start_cons hi
  omega

/-- Every placed record lies before the offset, and its bytes stand in the log. -/
lemma scanned_placed (hc : Chained q) (hm : Mapped q) {files : List (MapedFile Bytes)}
    {placed : List (ℕ × Rec)} {offset : ℕ} (hfiles : files <:+ q.mapedFiles)
    (h : Scanned maxMessageSize check files placed offset) :
    ∀ x ∈ placed, x.1 + x.2.size ≤ offset ∧ (∃ f ∈ files, f.fileFromOffset ≤ x.1) ∧
      ∃ rest, sliceAt q x.1 = x.2.bytes ++ rest := by
  have hfile : ∀ {f : MapedFile Bytes} {recs : List Rec} {tail : Bytes}, f ∈ q.mapedFiles →
      (∀ r ∈ recs, r.Written maxMessageSize) → f.mappedByteBuffer = bytesOf recs ++ tail →
      ∀ x ∈ place f.fileFromOffset recs, f.fileFromOffset ≤ x.1 ∧
        x.1 + x.2.size ≤ f.fileFromOffset + sizes recs ∧ sizes recs ≤ q.mapedFileSize ∧
        ∃ rest, sliceAt q x.1 = x.2.bytes ++ rest := by
    intro f recs tail hf hw hbytes x hx
    obtain ⟨h1, h2, rest, h3⟩ := place_spec tail hw hx
    have hlen := congrArg List.length hbytes
    rw [hm f hf, List.length_append, length_bytesOf hw] at hlen
    have hpos := x.2.size_pos
    obtain ⟨k, hk⟩ := hc.aligned (extent f) (List.mem_map_of_mem hf)
    change f.fileFromOffset = _ at hk
    have hmod : x.1 % q.mapedFileSize = x.1 - f.fileFromOffset := by
      rw [show x.1 = q.mapedFileSize * k + (x.1 - f.fileFromOffset) by omega, Nat.mul_add_mod,
        Nat.mod_eq_of_lt (by omega)]
      omega
    refine ⟨h1, h2, by omega, rest, ?_⟩
    rw [sliceAt, find_of_mem hc hf h1 (by omega)]
    simp only [hmod, hbytes]
    exact h3
  induction h with
  | @torn f files recs tail hw hf ht =>
    intro x hx
    obtain ⟨h1, h2, -, h3⟩ := hfile (hfiles.subset (by simp)) hw hf x hx
    exact ⟨h2, ⟨f, by simp, h1⟩, h3⟩
  | @sealed f g files recs memory n offset placed hw hf h ih =>
    have hfiles' := (List.suffix_cons f (g :: files)).trans hfiles
    intro x hx
    rcases List.mem_append.mp hx with hx | hx
    · obtain ⟨h1, h2, h4, h3⟩ := hfile (hfiles.subset (by simp)) hw hf x hx
      -- the record lies in a file before the last one
      obtain ⟨f', hf', h5, -⟩ := scanned_offset hm hfiles' h
      have h6 := start_le_of_suffix hc hfiles' hf'
      have h7 : g.fileFromOffset = f.fileFromOffset + q.mapedFileSize := by
        have h' := hc.part (hfiles.map extent).isInfix
        exact (List.isChain_cons_cons.mp h'.chain).1.2
      exact ⟨by omega, ⟨f, by simp, h1⟩, h3⟩
    · obtain ⟨h1, ⟨f', hf', h2⟩, h3⟩ := ih hfiles' x hx
      exact ⟨h1, ⟨f', List.mem_cons_of_mem _ hf', h2⟩, h3⟩
  | @full f recs memory n hw hf =>
    intro x hx
    obtain ⟨h1, h2, -, h3⟩ := hfile (hfiles.subset (by simp)) hw hf x hx
    exact ⟨h2, ⟨f, by simp, h1⟩, h3⟩

end Bounds

/-! ### Recovery -/

/-- The log after recovery: it ends at the offset, keeps every byte before it, holds no file
behind it, and every scanned record is still there. -/
structure Recovered (q q' : MapedFileQueue Bytes) (placed : List (ℕ × Rec)) (offset : ℕ) :
    Prop where
  committedWhere : q'.committedWhere = offset
  getMaxOffset : q'.getMaxOffset = offset
  kept : ∀ o : ℕ, q.getMinOffset ≤ o → o < offset → sliceAt q' o = sliceAt q o
  removed : ∀ f ∈ q'.mapedFiles, f.fileFromOffset ≤ offset
  stored : ∀ x ∈ placed, x.1 + x.2.size ≤ q'.getMaxOffset ∧
    ∃ rest, sliceAt q' x.1 = x.2.bytes ++ rest

/-- Loaded files count as written to their ends. -/
def Loaded (q : MapedFileQueue Bytes) : Prop :=
  ∀ f ∈ q.mapedFiles, f.wrotePostion = q.mapedFileSize

lemma recovered_cutAt {maxMessageSize : ℕ} {check : Bytes → DispatchRequest × Bytes}
    {q : MapedFileQueue Bytes} (hc : Chained q) (hm : Mapped q) (hl : Loaded q)
    {files : List (MapedFile Bytes)} {placed : List (ℕ × Rec)} {offset : ℕ}
    (hfiles : files <:+ q.mapedFiles) (h : Scanned maxMessageSize check files placed offset) :
    Recovered q (cutAt q offset) placed offset := by
  obtain ⟨f, hf, h1, h2⟩ := scanned_offset hm hfiles h
  have hmem := hfiles.subset hf
  have hmax : offset ≤ q.getMaxOffset := by
    have := wrote_le_max hc hmem
    rw [hl f hmem] at this
    omega
  obtain ⟨first, rest, hq⟩ := List.exists_cons_of_ne_nil (List.ne_nil_of_mem hmem)
  have hfirst : ∀ g ∈ q.mapedFiles, first.fileFromOffset ≤ g.fileFromOffset := fun g hg =>
    start_le_of_suffix hc (by rw [← hq]) (by rw [← hq]; exact hg)
  have hend := getMaxOffset_cutAt hc hq ((hfirst f hmem).trans h1) hmax
  refine ⟨rfl, hend, fun o hmin hlt => sliceAt_cutAt hc hmin hlt hmax,
    fun f hf => start_le_cutAt hf, fun x hx => ?_⟩
  obtain ⟨h3, ⟨g, hg, h4⟩, rest', h5⟩ := scanned_placed hc hm hfiles h x hx
  have hpos := x.2.size_pos
  have hmin : q.getMinOffset ≤ x.1 := by
    have := hfirst g (hfiles.subset hg)
    rw [MapedFileQueue.getMinOffset, hq]
    simp only [List.head?_cons]
    omega
  exact ⟨by rw [hend]; exact h3, rest', by rw [sliceAt_cutAt hc hmin (by omega) hmax, h5]⟩

/-- Recovery starts at the last file whose first message is not younger than the checkpoint,
or at the first file when there is none. -/
lemma matchedIndex_spec {timestamp : Int64} {files : List (MapedFile Bytes)}
    (h : ∀ f ∈ files, 64 ≤ f.mappedByteBuffer.length) :
    ∃ i, matchedIndex timestamp files.reverse = some i ∧
      (i = 0 ∨ ∃ f, files[i]? = some f ∧ isMapedFileMatchedRecover timestamp f = some true) ∧
      ∀ j f, i < j → files[j]? = some f → isMapedFileMatchedRecover timestamp f = some false := by
  induction files using List.reverseRecOn with
  | nil => exact ⟨0, rfl, .inl rfl, by simp⟩
  | append_singleton files f ih =>
    obtain ⟨b, hb⟩ := isMapedFileMatchedRecover_isSome timestamp (h f (by simp))
    rw [List.reverse_append, List.reverse_singleton, List.singleton_append, matchedIndex, hb]
    cases b with
    | true =>
      refine ⟨files.length, by simp, .inr ⟨f, by simp, hb⟩, fun j g hj hg => ?_⟩
      have := (List.getElem?_eq_some_iff.mp hg).1
      simp only [List.length_append, List.length_singleton] at this
      omega
    | false =>
      obtain ⟨i, h1, h2, h3⟩ := ih fun f hf => h f (List.mem_append_left _ hf)
      refine ⟨i, by simpa using h1, ?_, fun j g hj hg => ?_⟩
      · rcases h2 with h2 | ⟨g, hg, h2⟩
        · exact .inl h2
        · refine .inr ⟨g, ?_, h2⟩
          rw [List.getElem?_append_left (List.getElem?_eq_some_iff.mp hg).1]
          exact hg
      · rcases Nat.lt_or_ge j files.length with hlt | hge
        · rw [List.getElem?_append_left hlt] at hg
          exact h3 j g hj hg
        · have hlt := (List.getElem?_eq_some_iff.mp hg).1
          simp only [List.length_append, List.length_singleton] at hlt
          rw [show j = files.length by omega] at hg
          simp only [List.getElem?_concat_length, Option.some.injEq] at hg
          rw [← hg, hb]

/-- **Valid prefix.** For loaded files that hold records and blank records as they are written,
up to where the reader fails, both recoveries return. If every record has a topic and properties
that fit, and a delay level that can be read, the log ends at the offset to which the reader can
be followed, with everything before it kept and every scanned record still in the log. -/
theorem recovery_exact {cfg : MessageStoreConfig} {checkCRC : Bool} {timestamp : Int64}
    {q : MapedFileQueue Bytes} (hc : Chained q) (hm : Mapped q) (hl : Loaded q)
    (hne : q.mapedFiles ≠ []) (hsize : 64 ≤ q.mapedFileSize) :
    let svc := some cfg.scheduleMessageService
    let check := recoverCheck cfg svc checkCRC
    (recoverNormally check q).isSome ∧ (recoverAbnormally check timestamp q).isSome ∧
    (∀ placed offset,
      Scanned cfg.maxMessageSize check (q.mapedFiles.drop (q.mapedFiles.length - 3)) placed
        offset →
      (∀ x ∈ placed, x.2.Readable svc) →
      ∃ q', recoverNormally check q = some q' ∧ Recovered q q' placed offset ∧
        Followed check (q.mapedFiles.drop (q.mapedFiles.length - 3)) offset) ∧
    ∃ index, (index = 0 ∨ ∃ f, q.mapedFiles[index]? = some f ∧
        isMapedFileMatchedRecover timestamp f = some true) ∧
      (∀ j f, index < j → q.mapedFiles[j]? = some f →
        isMapedFileMatchedRecover timestamp f = some false) ∧
      ∀ placed offset,
        Scanned cfg.maxMessageSize check (q.mapedFiles.drop index) placed offset →
        (∀ x ∈ placed, x.2.Readable svc) →
        ∃ q' ds, recoverAbnormally check timestamp q = some (q', offset, ds) ∧
          Recovered q q' placed offset ∧ Followed check (q.mapedFiles.drop index) offset := by
  intro svc check
  obtain ⟨index, h1, h2, h3⟩ := @matchedIndex_spec timestamp q.mapedFiles
    fun f hf => by rw [hm f hf]; exact hsize
  refine ⟨?_, ?_, fun placed offset hscan hr => ?_, index, h2, h3,
    fun placed offset hscan hr => ?_⟩
  · obtain ⟨p, hp⟩ := @scanFiles_total check recoverCheck_lt
      (q.mapedFiles.drop (q.mapedFiles.length - 3))
    rw [recoverNormally, if_neg hne, hp]
    rfl
  · obtain ⟨p, hp⟩ := @scanFiles_total check recoverCheck_lt (q.mapedFiles.drop index)
    rw [recoverAbnormally, if_neg hne, h1, Option.bind_eq_bind, Option.bind_some, hp]
    rfl
  · obtain ⟨⟨ds, hds⟩, hfollow⟩ := scanFiles_scanned hscan hr
    refine ⟨cutAt q offset, ?_, recovered_cutAt hc hm hl (List.drop_suffix _ _) hscan, hfollow⟩
    rw [recoverNormally, if_neg hne, hds]
    rfl
  · obtain ⟨⟨ds, hds⟩, hfollow⟩ := scanFiles_scanned hscan hr
    refine ⟨cutAt q offset, ds, ?_, recovered_cutAt hc hm hl (List.drop_suffix _ _) hscan,
      hfollow⟩
    rw [recoverAbnormally, if_neg hne, h1, Option.bind_eq_bind, Option.bind_some, hds]
    rfl

/-! ### Two files of 1024 bytes -/

/-- The record of a message at the given place. -/
def recTo (topic : Utf8.Text) (physicOffset : ℕ) : Rec where
  message := stamp zeroEnv (checksum zeroEnv (messageTo topic))
  bornHost := [127, 0, 0, 1] ++ putInt 10911
  storeHost := [127, 0, 0, 1] ++ putInt 10911
  queueOffset := 0
  physicOffset := physicOffset

def zeros (n : ℕ) : Bytes := List.replicate n 0

def loadedFiles (mems : List Bytes) : MapedFileQueue Bytes :=
  (Chain.empty 1024 pos_1024).load (mems.zipIdx.map fun x => (1024 * x.2, 1024, x.1))

abbrev checkOf : Bytes → DispatchRequest × Bytes :=
  recoverCheck config (some config.scheduleMessageService) true

/-- A message with a topic of 129 bytes was stored; recovery cuts the log before it. -/
theorem recovery_exact_long_topic :
    let r := recTo (List.replicate 43 '中') 0
    let q := loadedFiles [r.bytes ++ zeros (1024 - r.size)]
    Chained q ∧ Mapped q ∧ Loaded q ∧
      Scanned config.maxMessageSize checkOf (q.mapedFiles.drop (q.mapedFiles.length - 3)) [(0, r)]
        r.size ∧
      ∃ q', recoverNormally checkOf q = some q' ∧ q'.getMaxOffset = 0 ∧
        ¬ Recovered q q' [(0, r)] r.size := by
  intro r q
  have hw : r.Written config.maxMessageSize :=
    ⟨by decide +kernel, by decide +kernel, rfl, by decide +kernel⟩
  have hmax : (recoverNormally checkOf q).map (fun q' => q'.getMaxOffset) = some 0 := by
    decide +kernel
  obtain ⟨q', hq', h0⟩ := Option.map_eq_some_iff.mp hmax
  refine ⟨⟨by simp [extents, q, loadedFiles, MapedFileQueue.load, Chain.empty], ?_, ?_⟩, ?_, ?_,
    ?_, q', hq', h0, fun h => ?_⟩
  · decide
  · decide
  · unfold Mapped; decide +kernel
  · unfold Loaded; decide
  · have hfiles : q.mapedFiles =
        [MapedFileQueue.loadFile 1024 0 (r.bytes ++ zeros (1024 - r.size))] := rfl
    have hs := @Scanned.torn config.maxMessageSize checkOf
      (MapedFileQueue.loadFile 1024 0 (r.bytes ++ zeros (1024 - r.size))) [] [r]
      (zeros (1024 - r.size)) (by simpa using hw) (by simp [MapedFileQueue.loadFile])
      (by decide +kernel)
    rw [hfiles]
    simpa [place, MapedFileQueue.loadFile, sizes] using hs
  · have := h.getMaxOffset
    rw [h0] at this
    exact absurd this (by decide +kernel)

/-- One record and a blank one in the first file, one record in the second. -/
theorem recovery_exact_two_files :
    let r₁ := recTo "TopicTest".toList 0
    let r₂ := recTo "TopicTest".toList 1024
    let q := loadedFiles [bytesOf [r₁] ++ blankBytes (fun _ => 7) (1024 - r₁.size),
      bytesOf [r₂] ++ zeros (1024 - r₂.size)]
    ∃ q', recoverNormally checkOf q = some q' ∧ q'.getMaxOffset = 1024 + r₂.size ∧
      Recovered q q' [(0, r₁), (1024, r₂)] (1024 + r₂.size) := by
  intro r₁ r₂ q
  have hw₁ : r₁.Written config.maxMessageSize :=
    ⟨by decide, by decide, rfl, by decide⟩
  have hw₂ : r₂.Written config.maxMessageSize :=
    ⟨by decide, by decide, rfl, by decide⟩
  have hread : ∀ o, (recTo "TopicTest".toList o).Readable
      (some config.scheduleMessageService) := fun o =>
    ⟨⟨by change (Utf8.utf8Encode "TopicTest".toList).length ≤ 127; decide,
      by change ((messageTo []).propertiesData).length ≤ 32767; decide⟩,
      fun h => absurd h (by change ¬ "TopicTest".toList = SCHEDULE_TOPIC; decide)⟩
  have hc : Chained q := by
    change Contiguous 1024 [(0, 1024), (1024, 1024)]
    exact ⟨by simp [Follows], by simp, by simp⟩
  have hm : Mapped q := by unfold Mapped; decide +kernel
  have hscan : Scanned config.maxMessageSize checkOf q.mapedFiles [(0, r₁), (1024, r₂)]
      (1024 + r₂.size) := by
    have h₂ := @Scanned.torn config.maxMessageSize checkOf
      (MapedFileQueue.loadFile 1024 1024 (bytesOf [r₂] ++ zeros (1024 - r₂.size))) [] [r₂]
      (zeros (1024 - r₂.size)) (by simpa using hw₂) rfl (by decide +kernel)
    have h₁ := @Scanned.sealed config.maxMessageSize checkOf (MapedFileQueue.loadFile 1024 0
      (bytesOf [r₁] ++ blankBytes (fun _ => 7) (1024 - r₁.size))) _ [] [r₁] (fun _ => 7)
      (1024 - r₁.size) _ _ (by simpa using hw₁) rfl h₂
    have hsize : sizes [r₂] = r₂.size := by simp
    rw [hsize] at h₁
    exact h₁
  obtain ⟨-, -, h, -⟩ := @recovery_exact config true 0 q hc hm
    (by unfold Loaded; decide) (List.cons_ne_nil _ _) (by decide)
  obtain ⟨q', h1, h2, -⟩ := h [(0, r₁), (1024, r₂)] (1024 + r₂.size) hscan (by
    intro x hx
    simp only [List.mem_cons, List.not_mem_nil, or_false] at hx
    rcases hx with rfl | rfl
    · exact hread 0
    · exact hread 1024)
  exact ⟨q', h1, h2.getMaxOffset, h2⟩

end CloudMQ.ValidPrefix
