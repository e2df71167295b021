import CloudMQ.EndTransaction

/-!
One run of the timer task that asks for the state of prepared transactions.

Every file of the state table has a task of its own. It walks the rows of the file, asks for those
that are still prepared and stops at the first one that is too young: the rows are in the order in
which the messages were stored. The store time of a row is in seconds, and it is multiplied as an
`int`, so that the time of a message of these days is lost and no row is found too young.
-/

namespace CloudMQ.CheckTimer

open CloudMQ.Message CloudMQ.Extents CloudMQ.Segment CloudMQ.Chain CloudMQ.Units
open CloudMQ.TransactionState CloudMQ.EndTransaction

/-! ### The task -/

structure CheckConfig where
  slave : Bool
  checkTransactionMessageEnable : Bool
  checkTransactionMessageAtleastInterval : Int64

/-- What a run of the task comes to: the calls of `gotoCheck`, and whether the task is cancelled. -/
structure TaskRun where
  checks : List Check
  cancelled : Bool
  deriving DecidableEq, Repr

/-- The index at which the loop over the rows ends. -/
def endOfRows (now : ℕ → Int64) (atleastInterval : Int64) : ℕ → List Row → ℕ
  | i, [] => i
  | i, row :: rows =>
    if row.state ≠ TransactionPreparedType then endOfRows now atleastInterval (i + 1) rows
    else if now i - (row.timestamp * 1000).toInt64 < atleastInterval then i
    else endOfRows now atleastInterval (i + 1) rows

/-- `TimerTask.run`, with the clock at every row. An exception of `gotoCheck` is only logged, so
the prepared messages are counted by the calls. A file that cannot be read is cancelled when it is
full. -/
def runTask (cfg : CheckConfig) (now : ℕ → Int64) (size : ℕ) (f : MapedFile (List Row)) : TaskRun :=
  if cfg.slave then ⟨[], false⟩
  else if ¬ cfg.checkTransactionMessageEnable then ⟨[], false⟩
  else if 0 < f.wrotePostion ∧ f.available then
    let checks := checkFile now cfg.checkTransactionMessageAtleastInterval f
    let i := TSStoreUnitSize * endOfRows now cfg.checkTransactionMessageAtleastInterval 0
      (unitsOf TSStoreUnitSize f)
    ⟨checks, checks.length = 0 ∧ i = size⟩
  else ⟨[], f.isFull size⟩

/-! ### The table -/

/-- What becomes of the table: a row is appended for a prepared message, or its state is written
over. -/
inductive TableAction
  | append (created : Bool) (clOffset : Int64) (size timestamp groupHashCode : Int32)
  | update (tsOffset clOffset : Int64) (groupHashCode state : Int32)

def step (q : Table) : TableAction → Table
  | .append created clOffset size timestamp groupHashCode =>
    (appendPreparedTransaction created clOffset size timestamp groupHashCode q).1
  | .update tsOffset clOffset groupHashCode state =>
    (updateTransactionState tsOffset clOffset groupHashCode state q).1

/-! ### What is to be checked -/

/-- The store time of the row, and so its age, is known to the second. -/
def Old (now atleastInterval : Int64) (row : Row) : Prop :=
  atleastInterval.toInt ≤ now.toInt - 1000 * row.timestamp.toInt

instance (now atleastInterval : Int64) (row : Row) : Decidable (Old now atleastInterval row) :=
  inferInstanceAs (Decidable (_ ≤ _))

/-- The test the task makes. -/
def Due (now atleastInterval : Int64) (row : Row) : Prop :=
  ¬ now - (row.timestamp * 1000).toInt64 < atleastInterval

/-- Row `k` of the table lies in the file. -/
def InFile (f : MapedFile (List Row)) (k : ℕ) : Prop :=
  f.fileFromOffset ≤ TSStoreUnitSize * k ∧ TSStoreUnitSize * k < f.fileFromOffset + f.wrotePostion

/-- **The right rows are checked**: those of the file that are prepared and old enough, each of
them once, with its own number in the table. The task is cancelled only when the file is full and
holds no prepared row. -/
structure Selected (cfg : CheckConfig) (now : Int64) (q : Table) (f : MapedFile (List Row))
    (r : TaskRun) : Prop where
  mem_iff : ∀ c, c ∈ r.checks ↔ ∃ k row, InFile f k ∧ (units TSStoreUnitSize q)[k]? = some row ∧
    row.state = TransactionPreparedType ∧
    Old now cfg.checkTransactionMessageAtleastInterval row ∧
    c = ⟨row.groupHashCode, k, row.clOffset, row.size⟩
  once : (r.checks.map Check.tranStateTableOffset).Nodup
  cancelled : r.cancelled = true → f.isFull q.mapedFileSize ∧
    ∀ row ∈ unitsOf TSStoreUnitSize f, row.state ≠ TransactionPreparedType

/-- The prepared rows that are old enough pass the test of the task, and the first one that is too
young does not. -/
structure Tested (now atleastInterval : Int64) (rows : List Row) : Prop where
  old : ∀ row ∈ rows, row.state = TransactionPreparedType → Old now atleastInterval row →
    Due now atleastInterval row
  young : ∀ (i : ℕ) row, rows[i]? = some row → row.state = TransactionPreparedType →
    ¬ Old now atleastInterval row →
    (∀ (j : ℕ) row', j < i → rows[j]? = some row' → row'.state = TransactionPreparedType →
      Old now atleastInterval row') → ¬ Due now atleastInterval row

/-- **The condition.** A slave, or a broker whose checks are off, has nothing to check. -/
def SelectsWhen (cfg : CheckConfig) (now : Int64) (rows : List Row) : Prop :=
  if cfg.slave ∨ ¬ cfg.checkTransactionMessageEnable then
    ∀ row ∈ rows, row.state = TransactionPreparedType →
      ¬ Old now cfg.checkTransactionMessageAtleastInterval row
  else Tested now cfg.checkTransactionMessageAtleastInterval rows

/-! ### The files of a table -/

/-- A table that was written from its first row on. -/
structure Shape (q : Table) : Prop where
  chained : Chained q
  starts : StartsAt TSStoreUnitSize 0 q
  dvd : ∀ f ∈ q.mapedFiles, TSStoreUnitSize ∣ f.wrotePostion
  mapped : ∀ f ∈ q.mapedFiles, f.mappedByteBuffer.length = q.mapedFileSize / TSStoreUnitSize
  available : ∀ f ∈ q.mapedFiles, f.available
  single : TSStoreUnitSize ∣ q.mapedFileSize ∨ q.mapedFiles.length ≤ 1

section Shape

variable {q q' : Table} {f : MapedFile (List Row)} {size : ℕ}

lemma Shape.empty (hpos : 0 < size) : Shape (Chain.empty size hpos) where
  chained := Contiguous.nil
  starts := by simp [StartsAt, Chain.empty]
  dvd := by simp [Chain.empty]
  mapped := by simp [Chain.empty]
  available := by simp [Chain.empty]
  single := .inr (by simp [Chain.empty])

/-- The file for the next row, which may be a new one. -/
lemma Shape.getLastMapedFile (h : Shape q) {created : Bool}
    (hq : q.getLastMapedFile 0 (if created then some (newRows q.mapedFileSize) else none) =
      (some f, q')) :
    Shape q' ∧ q'.mapedFileSize = q.mapedFileSize ∧ q'.mapedFiles.getLast? = some f ∧
      f.wrotePostion < q.mapedFileSize := by
  have hchain := h.chained.getLastMapedFile 0
    (if created then some (newRows q.mapedFileSize) else none)
  rw [hq] at hchain
  have hstarts := h.starts.getLastMapedFile h.chained (fun _ => by simp) hq
  obtain ⟨hlast, hsize, hlt, rfl | ⟨hmem, hfiles, hzero, havail, -, -, hfull⟩⟩ :=
    getLastMapedFile_cases h.chained hq
  · exact ⟨h, rfl, hlast, hlt⟩
  have hrows : f.mappedByteBuffer = newRows q.mapedFileSize := by
    cases created with
    | true => exact (Option.some.inj hmem).symm
    | false => cases hmem
  have hforall : ∀ P : MapedFile (List Row) → Prop, (∀ g ∈ q.mapedFiles, P g) → P f →
      ∀ g ∈ q'.mapedFiles, P g := by
    intro P hall hnew
    rw [hfiles]
    exact List.forall_mem_append.mpr ⟨hall, List.forall_mem_singleton.mpr hnew⟩
  refine ⟨⟨hchain, hstarts, hforall _ h.dvd ?_, ?_, hforall _ h.available havail, ?_⟩, hsize,
    hlast, hlt⟩
  · rw [hzero]
    exact Nat.dvd_zero _
  · rw [hsize]
    refine hforall _ h.mapped ?_
    rw [hrows, newRows, List.length_replicate]
  · rw [hsize]
    cases hold : q.mapedFiles.getLast? with
    | none =>
      rw [List.getLast?_eq_none_iff] at hold
      exact .inr (by rw [hfiles, hold]; rfl)
    | some last =>
      -- a file that is full of rows
      have hdvd := h.dvd last (List.mem_of_getLast? hold)
      rw [hfull last hold] at hdvd
      exact .inl hdvd

/-- **A row is appended.** -/
lemma Shape.append (h : Shape q) (created : Bool) (clOffset : Int64)
    (sz timestamp groupHashCode : Int32) :
    Shape (appendPreparedTransaction created clOffset sz timestamp groupHashCode q).1 ∧
      (appendPreparedTransaction created clOffset sz timestamp groupHashCode q).1.mapedFileSize =
        q.mapedFileSize := by
  unfold appendPreparedTransaction
  rcases hq : q.getLastMapedFile 0
    (if created then some (newRows q.mapedFileSize) else none) with ⟨_ | f, q₁⟩
  · obtain ⟨rfl, -⟩ := getLastMapedFile_none hq
    exact ⟨h, rfl⟩
  obtain ⟨h₁, hsize, hlast, hlt⟩ := h.getLastMapedFile hq
  simp only
  cases happ : appendUnit TSStoreUnitSize q₁.mapedFileSize
    ⟨clOffset, sz, timestamp, groupHashCode, TransactionPreparedType⟩ f with
  | none => exact ⟨h₁, hsize⟩
  | some f' =>
    have hmem := List.mem_of_getLast? hlast
    unfold appendUnit MapedFile.append at happ
    split at happ
    swap
    · cases happ
    next hroom =>
    have hf' := Option.some.inj happ
    refine ⟨⟨h₁.chained.setLast hlast (by rw [← hf']) (by rw [← hf']; exact hroom),
      h₁.starts.setLast hlast (by rw [← hf']), forall_mem_setLast h₁.dvd ?_,
      forall_mem_setLast h₁.mapped ?_, forall_mem_setLast h₁.available ?_, ?_⟩, hsize⟩
    · rw [← hf']
      exact Nat.dvd_add (h₁.dvd f hmem) (Nat.dvd_refl _)
    · rw [← hf', List.length_set]
      exact h₁.mapped f hmem
    · rw [← hf']
      exact h₁.available f hmem
    · refine h₁.single.imp id fun hlen => ?_
      have := congrArg List.length (List.dropLast_append_getLast? f hlast)
      simp only [MapedFileQueue.setLast, List.length_append, List.length_singleton] at this ⊢
      omega

/-- Writing to files in place. -/
lemma Shape.map (h : Shape q) {g : MapedFile (List Row) → MapedFile (List Row)}
    (hext : ∀ f, extent (g f) = extent f)
    (hlen : ∀ f, (g f).mappedByteBuffer.length = f.mappedByteBuffer.length)
    (havail : ∀ f, (g f).available = f.available) :
    Shape { q with mapedFiles := q.mapedFiles.map g } := by
  have hfiles : ({ q with mapedFiles := q.mapedFiles.map g } : Table).mapedFiles.map extent =
      q.mapedFiles.map extent := by
    rw [List.map_map]
    exact List.map_congr_left fun f _ => hext f
  refine ⟨?_, h.starts.of_extents hfiles, ?_, ?_, ?_, ?_⟩
  · rw [Chained, extents, hfiles]
    exact h.chained
  · refine List.forall_mem_map.mpr fun f hf => ?_
    rw [show (g f).wrotePostion = f.wrotePostion from congrArg Prod.snd (hext f)]
    exact h.dvd f hf
  · refine List.forall_mem_map.mpr fun f hf => ?_
    rw [hlen]
    exact h.mapped f hf
  · refine List.forall_mem_map.mpr fun f hf => ?_
    rw [havail]
    exact h.available f hf
  · refine h.single.imp id fun hle => ?_
    rw [List.length_map]
    exact hle

/-- **A state is written over**: the files stay where they are. -/
lemma Shape.update (h : Shape q) (tsOffset clOffset : Int64) (groupHashCode state : Int32) :
    Shape (updateTransactionState tsOffset clOffset groupHashCode state q).1 ∧
      (updateTransactionState tsOffset clOffset groupHashCode state q).1.mapedFileSize =
        q.mapedFileSize := by
  unfold updateTransactionState
  cases findTransactionBuffer tsOffset q with
  | none => exact ⟨h, rfl⟩
  | some row =>
    simp only
    split_ifs
    · exact ⟨h, rfl⟩
    · exact ⟨h, rfl⟩
    · exact ⟨h, rfl⟩
    · unfold updateUnit
      cases q.findMapedFileByOffset (TSStoreUnitSize * tsOffset.toInt.toNat) false with
      | none => exact ⟨h, rfl⟩
      | some f =>
        refine ⟨h.map (fun f' => ?_) (fun f' => ?_) fun f' => ?_, rfl⟩
        · split_ifs
          · rfl
          · rfl
        · split_ifs
          · exact List.length_modify _ _ _
          · rfl
        · split_ifs
          · rfl
          · rfl

/-- **Every table has the shape** that runs of these actions lead to. -/
lemma Shape.steps (h : Shape q) (as : List TableAction) :
    Shape (as.foldl step q) ∧ (as.foldl step q).mapedFileSize = q.mapedFileSize := by
  induction as generalizing q with
  | nil => exact ⟨h, rfl⟩
  | cons a as ih =>
    have hstep : Shape (step q a) ∧ (step q a).mapedFileSize = q.mapedFileSize := by
      cases a with
      | append created clOffset sz timestamp groupHashCode =>
        exact h.append created clOffset sz timestamp groupHashCode
      | update tsOffset clOffset groupHashCode state =>
        exact h.update tsOffset clOffset groupHashCode state
    obtain ⟨hshape, hsize⟩ := ih hstep.1
    exact ⟨hshape, hsize.trans hstep.2⟩

/-! ### The rows of a file -/

lemma length_rows (h : Shape q) (hf : f ∈ q.mapedFiles) :
    TSStoreUnitSize * (unitsOf TSStoreUnitSize f).length = f.wrotePostion := by
  have hle := Nat.div_le_div_right (c := TSStoreUnitSize) (wrote_le h.chained hf)
  rw [unitsOf, List.length_take, h.mapped f hf, Nat.min_eq_left hle,
    Nat.mul_div_cancel' (h.dvd f hf)]

/-- The number of the first row of a file. -/
lemma Shape.exists_first (h : Shape q) (hf : f ∈ q.mapedFiles) :
    ∃ m, f.fileFromOffset = TSStoreUnitSize * m ∧
      ∀ i < (unitsOf TSStoreUnitSize f).length,
        (units TSStoreUnitSize q)[m + i]? = (unitsOf TSStoreUnitSize f)[i]? := by
  obtain ⟨t, ht⟩ := List.getElem?_of_mem hf
  obtain ⟨first, rest, hfiles⟩ := List.exists_cons_of_ne_nil (List.ne_nil_of_mem hf)
  have hstart := start_of_index h.chained hfiles ht
  have hzero : first.fileFromOffset = 0 := h.starts first (by rw [hfiles]; rfl)
  have hlt := (List.getElem?_eq_some_iff.mp ht).1
  have hcount : t * q.mapedFileSize =
      TSStoreUnitSize * (t * (q.mapedFileSize / TSStoreUnitSize)) := by
    rcases h.single with hdvd | hlen
    · rw [Nat.mul_left_comm, Nat.mul_div_cancel' hdvd]
    · obtain rfl : t = 0 := by omega
      simp
  refine ⟨t * (q.mapedFileSize / TSStoreUnitSize), by omega, fun i hi => ?_⟩
  have hle : (unitsOf TSStoreUnitSize f).length ≤ q.mapedFileSize / TSStoreUnitSize := by
    rw [unitsOf, List.length_take, h.mapped f hf]
    exact Nat.min_le_right _ _
  rw [units, getElem?_flatMap_uniform (n := q.mapedFileSize / TSStoreUnitSize) (by omega) ?_ ?_, ht,
    Option.bind_some]
  · intro j g hg hj
    -- a file that is followed by another one is full
    have hfull : g.wrotePostion = q.mapedFileSize :=
      h.chained.full (i := j) (e := extent g) (by simp [extents, hg]) (by simpa [extents] using hj)
    rw [unitsOf, List.length_take, h.mapped g (List.mem_of_getElem? hg), hfull, Nat.min_self]
  · intro g hg
    rw [unitsOf, List.length_take, h.mapped g hg]
    exact Nat.min_le_right _ _

end Shape

/-! ### The loop -/

section Loop

variable {now interval : Int64} {f : MapedFile (List Row)} {rows : List Row} {i : ℕ} {c : Check}

/-- A row is checked when it is prepared and no prepared row up to it ends the loop. -/
lemma mem_checkRows : c ∈ checkRows (fun _ => now) interval f i rows ↔
    ∃ (k : ℕ) (row : Row), rows[k]? = some row ∧ row.state = TransactionPreparedType ∧
      (∀ (j : ℕ) row', j ≤ k → rows[j]? = some row' → row'.state = TransactionPreparedType →
        Due now interval row') ∧
      c = ⟨row.groupHashCode, getTranStateOffset f (i + k), row.clOffset, row.size⟩ := by
  induction rows generalizing i with
  | nil => simp [checkRows]
  | cons row rows ih =>
    rw [checkRows]
    split_ifs with hstate hyoung
    · -- a row that is committed or rolled back
      rw [ih]
      constructor
      · rintro ⟨k, row', hk, hprep, hdue, rfl⟩
        refine ⟨k + 1, row', by simpa using hk, hprep, fun j r hj hr hrprep => ?_, ?_⟩
        · cases j with
          | zero =>
            obtain rfl : row = r := by simpa using hr
            exact absurd hrprep hstate
          | succ j => exact hdue j r (by omega) (by simpa using hr) hrprep
        · rw [Nat.add_assoc, Nat.add_comm 1 k]
      · rintro ⟨_ | k, row', hk, hprep, hdue, rfl⟩
        · obtain rfl : row = row' := by simpa using hk
          exact absurd hprep hstate
        · refine ⟨k, row', by simpa using hk, hprep, fun j r hj hr hrprep => ?_, ?_⟩
          · exact hdue (j + 1) r (by omega) (by simpa using hr) hrprep
          · rw [Nat.add_assoc, Nat.add_comm 1 k]
    · -- the loop ends
      refine ⟨fun h => absurd h List.not_mem_nil, ?_⟩
      rintro ⟨k, row', -, -, hdue, -⟩
      push Not at hstate
      exact absurd hyoung (hdue 0 row (Nat.zero_le k) rfl hstate)
    · push Not at hstate
      rw [List.mem_cons, ih]
      constructor
      · rintro (rfl | ⟨k, row', hk, hprep, hdue, rfl⟩)
        · refine ⟨0, row, rfl, hstate, fun j r hj hr _ => ?_, rfl⟩
          obtain rfl := Nat.le_zero.mp hj
          obtain rfl : row = r := by simpa using hr
          exact hyoung
        · refine ⟨k + 1, row', by simpa using hk, hprep, fun j r hj hr hrprep => ?_, ?_⟩
          · cases j with
            | zero =>
              obtain rfl : row = r := by simpa using hr
              exact hyoung
            | succ j => exact hdue j r (by omega) (by simpa using hr) hrprep
          · rw [Nat.add_assoc, Nat.add_comm 1 k]
      · rintro ⟨_ | k, row', hk, hprep, hdue, rfl⟩
        · obtain rfl : row = row' := by simpa using hk
          exact .inl rfl
        · refine .inr ⟨k, row', by simpa using hk, hprep, fun j r hj hr hrprep => ?_, ?_⟩
          · exact hdue (j + 1) r (by omega) (by simpa using hr) hrprep
          · rw [Nat.add_assoc, Nat.add_comm 1 k]

/-- The numbers of the rows that are checked ascend. -/
lemma pairwise_checkRows :
    (∀ c ∈ checkRows (fun _ => now) interval f i rows,
      getTranStateOffset f i ≤ c.tranStateTableOffset) ∧
    ((checkRows (fun _ => now) interval f i rows).map Check.tranStateTableOffset).Pairwise
      (· < ·) := by
  have hlt : ∀ i, getTranStateOffset f i < getTranStateOffset f (i + 1) := by
    intro i
    unfold getTranStateOffset TSStoreUnitSize
    omega
  induction rows generalizing i with
  | nil => exact ⟨fun _ h => absurd h List.not_mem_nil, List.Pairwise.nil⟩
  | cons row rows ih =>
    obtain ⟨hle, hpair⟩ := @ih (i + 1)
    rw [checkRows]
    split_ifs
    · exact ⟨fun c hc => (hlt i).le.trans (hle c hc), hpair⟩
    · exact ⟨fun _ h => absurd h List.not_mem_nil, List.Pairwise.nil⟩
    · refine ⟨fun c hc => ?_, List.pairwise_cons.mpr ⟨fun o ho => ?_, hpair⟩⟩
      · rcases List.mem_cons.mp hc with rfl | hc
        · exact le_rfl
        · exact (hlt i).le.trans (hle c hc)
      · obtain ⟨c, hc, rfl⟩ := List.mem_map.mp ho
        exact (hlt i).trans_le (hle c hc)

/-- A loop that comes to the end of the rows without a check has seen no prepared row. -/
lemma no_prepared (hnone : checkRows (fun _ => now) interval f i rows = [])
    (hend : i + rows.length ≤ endOfRows (fun _ => now) interval i rows) :
    ∀ row ∈ rows, row.state ≠ TransactionPreparedType := by
  induction rows generalizing i with
  | nil => exact fun _ h => absurd h List.not_mem_nil
  | cons row rows ih =>
    rw [checkRows] at hnone
    rw [endOfRows] at hend
    split_ifs at hnone hend with hstate hyoung
    · rw [List.length_cons] at hend
      exact List.forall_mem_cons.mpr ⟨hstate, ih hnone (by omega)⟩
    · rw [List.length_cons] at hend
      omega

lemma endOfRows_le : endOfRows (fun _ => now) interval i rows ≤ i + rows.length := by
  induction rows generalizing i with
  | nil => exact le_rfl
  | cons row rows ih =>
    have hnext := @ih (i + 1)
    rw [endOfRows, List.length_cons]
    split_ifs
    · omega
    · omega
    · omega

end Loop

/-! ### The rows that are checked -/

section Selection

variable {q : Table} {f : MapedFile (List Row)} {cfg : CheckConfig} {now : Int64}

/-- The task is cancelled only for a full file without a prepared row. -/
lemma cancelled_runTask (h : Shape q) (hf : f ∈ q.mapedFiles)
    (hc : (runTask cfg (fun _ => now) q.mapedFileSize f).cancelled = true) :
    f.isFull q.mapedFileSize ∧
      ∀ row ∈ unitsOf TSStoreUnitSize f, row.state ≠ TransactionPreparedType := by
  have hwrote := wrote_le h.chained hf
  have hlen := length_rows h hf
  have hpos := q.size_pos
  unfold runTask at hc
  split_ifs at hc with h1 h2 h3
  · simp only [decide_eq_true_eq, List.length_eq_zero_iff, checkFile, if_pos h3] at hc
    obtain ⟨hnone, hend⟩ := hc
    have hle := Nat.mul_le_mul_left TSStoreUnitSize (@endOfRows_le now
      cfg.checkTransactionMessageAtleastInterval (unitsOf TSStoreUnitSize f) 0)
    rw [Nat.zero_add, hend, hlen] at hle
    have hfull : f.wrotePostion = q.mapedFileSize := by omega
    refine ⟨by simpa [MapedFile.isFull] using hfull, no_prepared hnone ?_⟩
    rw [Nat.zero_add]
    refine Nat.le_of_mul_le_mul_left (c := TSStoreUnitSize) ?_ (by decide)
    omega
  · simp only [MapedFile.isFull, decide_eq_true_eq] at hc
    exact absurd ⟨by omega, h.available f hf⟩ h3

/-- Row `m + i` of the table, when the file begins with row `m`. -/
lemma getTranStateOffset_eq {m : ℕ} (hm : f.fileFromOffset = TSStoreUnitSize * m) (i : ℕ) :
    getTranStateOffset f i = m + i := by
  rw [getTranStateOffset, hm, ← Nat.mul_add, Nat.mul_div_cancel_left _ (by decide)]

/-- The rows of the table that lie in the file are the rows of the file. -/
lemma inFile_iff (h : Shape q) (hf : f ∈ q.mapedFiles) {m : ℕ}
    (hm : f.fileFromOffset = TSStoreUnitSize * m) {k : ℕ} :
    InFile f k ↔ ∃ i < (unitsOf TSStoreUnitSize f).length, k = m + i := by
  have hlen := length_rows h hf
  have hpos : 0 < TSStoreUnitSize := by decide
  rw [InFile, hm, ← hlen, ← Nat.mul_add, Nat.mul_le_mul_left_iff hpos, Nat.mul_lt_mul_left hpos]
  constructor
  · rintro ⟨hle, hlt⟩
    exact ⟨k - m, by omega, by omega⟩
  · rintro ⟨i, hi, rfl⟩
    omega

/-- What the loop over a file checks, by the numbers of the table. -/
lemma mem_checks {m : ℕ}
    (hm : f.fileFromOffset = TSStoreUnitSize * m) (interval : Int64) (c : Check) :
    c ∈ checkRows (fun _ => now) interval f 0 (unitsOf TSStoreUnitSize f) ↔
      ∃ (i : ℕ) (row : Row), (unitsOf TSStoreUnitSize f)[i]? = some row ∧
        row.state = TransactionPreparedType ∧
        (∀ (j : ℕ) row', j ≤ i → (unitsOf TSStoreUnitSize f)[j]? = some row' →
          row'.state = TransactionPreparedType → Due now interval row') ∧
        c = ⟨row.groupHashCode, m + i, row.clOffset, row.size⟩ := by
  rw [mem_checkRows]
  simp only [Nat.zero_add, getTranStateOffset_eq hm]

/-- No young row can be passed: the first one fails the test. -/
lemma Tested.old_of_due {interval : Int64} {rows : List Row} (h : Tested now interval rows) {i : ℕ}
    (hdue : ∀ (j : ℕ) row, j ≤ i → rows[j]? = some row → row.state = TransactionPreparedType →
      Due now interval row) (n : ℕ) (hn : n ≤ i) (row : Row) (hrow : rows[n]? = some row)
    (hprep : row.state = TransactionPreparedType) : Old now interval row := by
  induction n using Nat.strong_induction_on generalizing row with
  | _ n ih =>
    by_contra hyoung
    exact h.young n row hrow hprep hyoung
      (fun j row' hj hrow' hprep' => ih j hj (by omega) row' hrow' hprep')
      (hdue n row hn hrow hprep)

/-- **The loop.** It checks the right rows if and only if its test is right about the prepared rows
it comes to. -/
lemma mem_iff_iff_tested (h : Shape q) (hf : f ∈ q.mapedFiles) (interval : Int64)
    (hsorted : (unitsOf TSStoreUnitSize f).Pairwise fun row row' =>
      row.timestamp.toInt ≤ row'.timestamp.toInt) :
    (∀ c, c ∈ checkRows (fun _ => now) interval f 0 (unitsOf TSStoreUnitSize f) ↔
      ∃ k row, InFile f k ∧ (units TSStoreUnitSize q)[k]? = some row ∧
        row.state = TransactionPreparedType ∧ Old now interval row ∧
        c = ⟨row.groupHashCode, k, row.clOffset, row.size⟩) ↔
    Tested now interval (unitsOf TSStoreUnitSize f) := by
  obtain ⟨m, hm, hget⟩ := h.exists_first hf
  have hindex : ∀ {i row}, (unitsOf TSStoreUnitSize f)[i]? = some row →
      InFile f (m + i) ∧ (units TSStoreUnitSize q)[m + i]? = some row := by
    intro i row hi
    have hlt := (List.getElem?_eq_some_iff.mp hi).1
    exact ⟨(inFile_iff h hf hm).mpr ⟨i, hlt, rfl⟩, (hget i hlt).trans hi⟩
  constructor
  · intro hmem
    -- a prepared row that is old is checked, so the loop got as far
    have hold : ∀ (i : ℕ) row, (unitsOf TSStoreUnitSize f)[i]? = some row →
        row.state = TransactionPreparedType → Old now interval row → Due now interval row := by
      intro i row hi hprep hage
      obtain ⟨hin, hrow⟩ := hindex hi
      obtain ⟨k, row', -, -, hdue, heq⟩ := (mem_checks hm interval _).mp
        ((hmem _).mpr ⟨m + i, row, hin, hrow, hprep, hage, rfl⟩)
      have hk : m + i = m + k := congrArg Check.tranStateTableOffset heq
      exact hdue i row (by omega) hi hprep
    refine ⟨fun row hrow => ?_, fun i row hi hprep hage hbefore hdue => hage ?_⟩
    · obtain ⟨i, hi⟩ := List.getElem?_of_mem hrow
      exact hold i row hi
    · -- a young row that passes the test is checked
      obtain ⟨k, row', -, hrow', -, hage', heq⟩ := (hmem _).mp
        ((mem_checks hm interval _).mpr ⟨i, row, hi, hprep, fun j r hj hr hrprep => by
          rcases Nat.lt_or_eq_of_le hj with hlt | rfl
          · exact hold j r hr hrprep (hbefore j r hlt hr hrprep)
          · obtain rfl : row = r := Option.some.inj (hi.symm.trans hr)
            exact hdue, rfl⟩)
      have hk : m + i = k := congrArg Check.tranStateTableOffset heq
      obtain rfl : row = row' := by
        rw [← hk, (hindex hi).2] at hrow'
        exact Option.some.inj hrow'
      exact hage'
  · intro htested c
    rw [mem_checks hm interval]
    constructor
    · rintro ⟨i, row, hi, hprep, hdue, rfl⟩
      have hage := htested.old_of_due hdue i le_rfl row hi hprep
      obtain ⟨hin, hrow⟩ := hindex hi
      exact ⟨m + i, row, hin, hrow, hprep, hage, rfl⟩
    · rintro ⟨k, row, hin, hrow, hprep, hage, rfl⟩
      obtain ⟨i, hlt, rfl⟩ := (inFile_iff h hf hm).mp hin
      have hi := (hget i hlt).symm.trans hrow
      refine ⟨i, row, hi, hprep, fun j r hj hr hrprep => ?_, rfl⟩
      refine htested.old r (List.mem_of_getElem? hr) hrprep ?_
      -- the rows before an old one are old as well
      rcases Nat.lt_or_eq_of_le hj with hlt' | rfl
      · obtain ⟨hj', rfl⟩ := List.getElem?_eq_some_iff.mp hr
        obtain ⟨hi', rfl⟩ := List.getElem?_eq_some_iff.mp hi
        have hle := List.pairwise_iff_getElem.mp hsorted j i hj' hi' hlt'
        unfold Old at hage ⊢
        omega
      · obtain rfl : row = r := Option.some.inj (hi.symm.trans hr)
        exact hage

/-- What is checked when the task does not end at once. -/
lemma checks_runTask (h : Shape q) (hf : f ∈ q.mapedFiles)
    (hactive : ¬ (cfg.slave = true ∨ ¬ cfg.checkTransactionMessageEnable = true)) :
    (runTask cfg (fun _ => now) q.mapedFileSize f).checks =
      checkRows (fun _ => now) cfg.checkTransactionMessageAtleastInterval f 0
        (unitsOf TSStoreUnitSize f) := by
  rw [not_or] at hactive
  rw [runTask, if_neg hactive.1, if_neg hactive.2]
  split_ifs with hread
  · rw [checkFile, if_pos hread]
  · have hzero : f.wrotePostion = 0 := by
      by_contra hne
      exact hread ⟨Nat.pos_of_ne_zero hne, h.available f hf⟩
    rw [unitsOf, hzero, Nat.zero_div, List.take_zero, checkRows]

/-- A run of the task on a file of a table. -/
lemma selected_iff (h : Shape q) (hf : f ∈ q.mapedFiles)
    (hsorted : (unitsOf TSStoreUnitSize f).Pairwise fun row row' =>
      row.timestamp.toInt ≤ row'.timestamp.toInt) :
    Selected cfg now q f (runTask cfg (fun _ => now) q.mapedFileSize f) ↔
      SelectsWhen cfg now (unitsOf TSStoreUnitSize f) := by
  unfold SelectsWhen
  split_ifs with hactive
  · -- nothing is checked
    have hrun : runTask cfg (fun _ => now) q.mapedFileSize f = ⟨[], false⟩ := by
      unfold runTask
      rcases hactive with hslave | hoff
      · rw [if_pos hslave]
      · rw [if_pos hoff, ite_self]
    obtain ⟨m, hm, hget⟩ := h.exists_first hf
    rw [hrun]
    constructor
    · intro hsel row hrow hprep hage
      obtain ⟨i, hi⟩ := List.getElem?_of_mem hrow
      have hlt := (List.getElem?_eq_some_iff.mp hi).1
      exact absurd ((hsel.mem_iff _).mpr ⟨m + i, row, (inFile_iff h hf hm).mpr ⟨i, hlt, rfl⟩,
        (hget i hlt).trans hi, hprep, hage, rfl⟩) List.not_mem_nil
    · intro hnone
      refine ⟨fun c => ⟨fun hc => absurd hc List.not_mem_nil, ?_⟩, List.nodup_nil,
        fun hc => absurd hc Bool.false_ne_true⟩
      rintro ⟨k, row, hin, hrow, hprep, hage, -⟩
      obtain ⟨i, hlt, rfl⟩ := (inFile_iff h hf hm).mp hin
      have hi := (hget i hlt).symm.trans hrow
      exact absurd hage (hnone row (List.mem_of_getElem? hi) hprep)
  · rw [← mem_iff_iff_tested h hf _ hsorted, ← checks_runTask h hf hactive]
    constructor
    · exact fun hsel => hsel.mem_iff
    · intro hmem
      refine ⟨hmem, ?_, cancelled_runTask h hf⟩
      rw [checks_runTask h hf hactive]
      exact (pairwise_checkRows (i := 0)).2.imp ne_of_lt

end Selection

/-- By the clock of these days every row passes the test, however young it is. -/
lemma due_of_realistic {now interval : Int64} {row : Row}
    (h : interval.toInt + 2 ^ 31 ≤ now.toInt) (hnow : now.toInt < 2 ^ 62) :
    Due now interval row := by
  have hlt := (row.timestamp * 1000).toInt_lt
  have hle := (row.timestamp * 1000).le_toInt
  have hinterval := interval.le_toInt
  rw [Due, Int64.lt_iff_toInt_lt, Int64.toInt_sub, Int32.toInt_toInt64,
    Int.bmod_eq_of_le (by omega) (by omega)]
  omega

/-- **When the right rows are checked.** In every table that runs of appends and updates lead to,
for every file with rows in the order of their store times and every time: the run of the task
checks the right rows if and only if its test is right about the prepared rows. By the clock of
these days that is so if and only if no prepared row is too young. -/
theorem selects_iff {size : ℕ} {hpos : 0 < size} {as : List TableAction} {cfg : CheckConfig}
    {now : Int64} {f : MapedFile (List Row)}
    (hf : f ∈ (as.foldl step (Chain.empty size hpos)).mapedFiles)
    (hsorted : (unitsOf TSStoreUnitSize f).Pairwise fun row row' =>
      row.timestamp.toInt ≤ row'.timestamp.toInt) :
    (Selected cfg now (as.foldl step (Chain.empty size hpos)) f
        (runTask cfg (fun _ => now) size f) ↔
      SelectsWhen cfg now (unitsOf TSStoreUnitSize f)) ∧
    (cfg.slave = false → cfg.checkTransactionMessageEnable = true →
      cfg.checkTransactionMessageAtleastInterval.toInt + 2 ^ 31 ≤ now.toInt → now.toInt < 2 ^ 62 →
      (SelectsWhen cfg now (unitsOf TSStoreUnitSize f) ↔
        ∀ row ∈ unitsOf TSStoreUnitSize f, row.state = TransactionPreparedType →
          Old now cfg.checkTransactionMessageAtleastInterval row)) := by
  obtain ⟨hshape, hsize⟩ := (Shape.empty hpos).steps as
  refine ⟨?_, fun hslave hon hclock hnow => ?_⟩
  · have hiff := @selected_iff _ f cfg now hshape hf hsorted
    rw [hsize] at hiff
    exact hiff
  · rw [SelectsWhen, if_neg (by simp [hslave, hon])]
    have hdue : ∀ row, Due now cfg.checkTransactionMessageAtleastInterval row := fun row =>
      due_of_realistic hclock hnow
    constructor
    · intro htested row hrow hprep
      obtain ⟨i, hi⟩ := List.getElem?_of_mem hrow
      exact htested.old_of_due (fun _ row' _ _ _ => hdue row') i le_rfl row hi hprep
    · intro hold
      refine ⟨fun row _ _ _ => hdue row, fun i row hi hprep hyoung => ?_⟩
      exact absurd (hold row (List.mem_of_getElem? hi) hprep) hyoung

/-! ### A message that was just prepared -/

/-- A master with the interval of a minute. -/
def minute : CheckConfig := ⟨false, true, 60000⟩

/-- A message is stored at 1700000000 seconds. -/
def onePrepared : List TableAction := [.append true 0 100 1700000000 7]

def oneRow : MapedFile (List Row) where
  fileFromOffset := 0
  mappedByteBuffer := (newRows 48).set 0 ⟨0, 100, 1700000000, 7, TransactionPreparedType⟩
  wrotePostion := 24
  firstCreateInQueue := true

lemma pos_48 : 0 < 48 := by decide

lemma files_onePrepared :
    (onePrepared.foldl step (Chain.empty 48 pos_48)).mapedFiles = [oneRow] := rfl

/-- After a minute the message is checked. -/
theorem selects_afterMinute : Selected minute 1700000060000
    (onePrepared.foldl step (Chain.empty 48 pos_48)) oneRow
      (runTask minute (fun _ => 1700000060000) 48 oneRow) := by
  have hrows : unitsOf TSStoreUnitSize oneRow =
      [⟨0, 100, 1700000000, 7, TransactionPreparedType⟩] := by decide
  obtain ⟨hiff, hold⟩ := @selects_iff 48 pos_48 onePrepared minute 1700000060000 oneRow
    (by rw [files_onePrepared]; exact List.mem_cons_self)
    (by rw [hrows]; exact List.pairwise_singleton _ _)
  refine hiff.mpr ((hold rfl rfl (by decide) (by decide)).mpr fun row hrow _ => ?_)
  rw [hrows, List.mem_singleton] at hrow
  rw [hrow]
  decide

/-- After a second it is checked as well. -/
theorem youngRow_checked :
    oneRow ∈ (onePrepared.foldl step (Chain.empty 48 pos_48)).mapedFiles ∧
    (runTask minute (fun _ => 1700000001000) 48 oneRow).checks = [⟨7, 0, 0, 100⟩] ∧
    ¬ Selected minute 1700000001000 (onePrepared.foldl step (Chain.empty 48 pos_48)) oneRow
      (runTask minute (fun _ => 1700000001000) 48 oneRow) := by
  have hchecks : (runTask minute (fun _ => 1700000001000) 48 oneRow).checks = [⟨7, 0, 0, 100⟩] := by
    decide
  refine ⟨by rw [files_onePrepared]; exact List.mem_cons_self, hchecks, fun hsel => ?_⟩
  have hmem : (⟨7, 0, 0, 100⟩ : Check) ∈
      (runTask minute (fun _ => 1700000001000) 48 oneRow).checks := by
    rw [hchecks]
    exact List.mem_cons_self
  obtain ⟨k, row, -, hrow, -, hage, hcheck⟩ := (hsel.mem_iff _).mp hmem
  have hk : 0 = k := congrArg Check.tranStateTableOffset hcheck
  have hunits : units TSStoreUnitSize (onePrepared.foldl step (Chain.empty 48 pos_48)) =
      [⟨0, 100, 1700000000, 7, TransactionPreparedType⟩] := by
    rw [units, files_onePrepared]
    decide
  rw [← hk, hunits] at hrow
  obtain rfl := Option.some.inj hrow
  exact absurd hage (by decide)

end CloudMQ.CheckTimer
