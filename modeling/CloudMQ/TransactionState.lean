import CloudMQ.CommitLog
import CloudMQ.Units

/-!
The transaction state table: one row for each prepared message, in the order the messages are
dispatched. A commit or rollback is written over the state of the row.

The number of a row is never stored. A prepared message carries the value of a counter, and the
row is found there as long as rows are appended for exactly the messages that advance the counter.

The size of the files of the table is taken from the configuration as it is. When it is no
multiple of the size of a row, the last row of a file does not fit, the file never counts as full,
and no row is appended any more.
-/

namespace CloudMQ.TransactionState

open CloudMQ.Message CloudMQ.Segment CloudMQ.Chain CloudMQ.Units

def TSStoreUnitSize : ℕ := 24

structure Row where
  clOffset : Int64
  size : Int32
  timestamp : Int32
  groupHashCode : Int32
  state : Int32
  deriving DecidableEq, Repr

/-- What recovery takes for a row. -/
def Row.isValid (row : Row) : Bool :=
  decide (0 ≤ row.clOffset.toInt) && decide (0 < row.size.toInt) &&
    (row.state == TransactionPreparedType || row.state == TransactionCommitType ||
      row.state == TransactionRollbackType)

abbrev Table := MapedFileQueue (List Row)

/-- A new file is full of zeros. -/
def newRows (size : ℕ) : List Row := List.replicate (size / TSStoreUnitSize) ⟨0, 0, 0, 0, 0⟩

/-- `created` says whether a new file can be created. -/
def appendPreparedTransaction (created : Bool) (clOffset : Int64)
    (size timestamp groupHashCode : Int32) (q : Table) : Table × Bool :=
  match q.getLastMapedFile 0 (if created then some (newRows q.mapedFileSize) else none) with
  | (none, q) => (q, false)
  | (some f, q) =>
    match appendUnit TSStoreUnitSize q.mapedFileSize
        ⟨clOffset, size, timestamp, groupHashCode, TransactionPreparedType⟩ f with
    | none => (q, false)
    | some f => (q.setLast f, true)

def findTransactionBuffer (tsOffset : Int64) (q : Table) : Option Row :=
  if tsOffset.toInt < 0 then none else findUnit TSStoreUnitSize q tsOffset.toInt.toNat

/-- The answer is `false` also when the state was written. -/
def updateTransactionState (tsOffset clOffset : Int64) (groupHashCode state : Int32) (q : Table) :
    Table × Bool :=
  match findTransactionBuffer tsOffset q with
  | none => (q, false)
  | some row =>
    if clOffset ≠ row.clOffset then (q, false)
    else if groupHashCode ≠ row.groupHashCode then (q, false)
    else if TransactionPreparedType ≠ row.state then (q, true)
    else (updateUnit TSStoreUnitSize q tsOffset.toInt.toNat fun row => { row with state }, false)

/-- `recoverStateTableNormal`, with the new value of the counter when it is set. A file that is
valid up to its last whole row and ends within a row makes the reading fail. -/
def recoverStateTableNormal (q : Table) : Option (Table × Option Int64) :=
  if q.mapedFiles = [] then some (q, none)
  else if ¬ TSStoreUnitSize ∣ q.mapedFileSize ∧
      ((q.mapedFiles.drop (q.mapedFiles.length - 3)).head?.any fun f =>
        f.mappedByteBuffer.all Row.isValid) then none
  else
    let r := recoverUnits TSStoreUnitSize Row.isValid q
    some (r.1, some (Int64.ofNat (r.1.getMaxOffset / TSStoreUnitSize)))

/-! ### What the table holds -/

/-- The table holds exactly these rows. -/
structure Held (rows : List Row) (q : Table) : Prop where
  sound : Sound TSStoreUnitSize Row.isValid (rounded TSStoreUnitSize q)
  starts : StartsAt TSStoreUnitSize 0 q
  rows : units TSStoreUnitSize q = rows
  single : Single TSStoreUnitSize q

section Held

variable {rows : List Row} {q : Table}

lemma length_newRows {size : ℕ} :
    TSStoreUnitSize * (newRows size).length = TSStoreUnitSize * (size / TSStoreUnitSize) := by
  rw [newRows, List.length_replicate]

lemma invalid_newRows {size : ℕ} : ∀ row ∈ newRows size, row.isValid = false := by
  intro row hrow
  rw [List.eq_of_mem_replicate hrow]
  rfl

/-- A new table, with files that hold at least one row. -/
lemma held_empty {size : ℕ} (hpos : 0 < size) (hle : TSStoreUnitSize ≤ size) :
    Held [] (Chain.empty size hpos) where
  sound := by
    refine Sound.nil rfl ?_
    change TSStoreUnitSize ∣ max 1 (TSStoreUnitSize * (size / TSStoreUnitSize))
    have : 0 < size / TSStoreUnitSize := Nat.div_pos hle (by decide)
    rw [max_eq_right (Nat.mul_pos (by decide) this)]
    exact Nat.dvd_mul_right _ _
  starts := by simp [StartsAt, Chain.empty]
  rows := rfl
  single := .inr (by simp [Chain.empty])

lemma Held.find (h : Held rows q) {tsOffset : Int64} (hk : 0 ≤ tsOffset.toInt) :
    findTransactionBuffer tsOffset q = rows[tsOffset.toInt.toNat]? := by
  rw [findTransactionBuffer, if_neg (by omega), findUnit_rounded h.sound h.starts h.single, h.rows]

/-- **One row more.** -/
lemma Held.append (h : Held rows q) (hroom : HasRoom TSStoreUnitSize q) {clOffset : Int64}
    {size timestamp groupHashCode : Int32} (hcl : 0 ≤ clOffset.toInt) (hsize : 0 < size.toInt) :
    Held (rows ++ [⟨clOffset, size, timestamp, groupHashCode, TransactionPreparedType⟩])
      (appendPreparedTransaction true clOffset size timestamp groupHashCode q).1 ∧
    (appendPreparedTransaction true clOffset size timestamp groupHashCode q).1.mapedFileSize =
      q.mapedFileSize := by
  have hround := getLastMapedFile_rounded h.sound h.starts h.single hroom
    (some (newRows q.mapedFileSize))
  have hfresh : ∀ mem ∈ some (newRows q.mapedFileSize),
      TSStoreUnitSize * mem.length = (rounded TSStoreUnitSize q).mapedFileSize ∧
        ∀ row ∈ mem, row.isValid = false := by
    rintro mem hmem
    obtain rfl := Option.mem_some_iff.mp hmem
    exact ⟨by rw [length_newRows, h.sound.size_rounded], invalid_newRows⟩
  unfold appendPreparedTransaction
  rw [if_pos rfl]
  rcases hq : q.getLastMapedFile 0 (some (newRows q.mapedFileSize)) with ⟨_ | f, q₁⟩
  · exact absurd (getLastMapedFile_none hq).2 (by simp)
  · rw [hq] at hround
    obtain ⟨hsound, hunits, hsize₁, hlast, hlt⟩ := h.sound.getLastMapedFile hfresh hround
    have hsize₂ : q₁.mapedFileSize = q.mapedFileSize := by
      have := mapedFileSize_getLastMapedFile (q := q) 0 (some (newRows q.mapedFileSize))
      rwa [hq] at this
    obtain ⟨f', happ, hsound', hunits', hfrom, hwrote⟩ := hsound.appendUnit hlast
      (by rw [hsize₁]; exact hlt)
      (u := ⟨clOffset, size, timestamp, groupHashCode, TransactionPreparedType⟩)
      (by simp [Row.isValid, hcl, hsize])
    have happ' : appendUnit TSStoreUnitSize q₁.mapedFileSize
        ⟨clOffset, size, timestamp, groupHashCode, TransactionPreparedType⟩ f = some f' := by
      refine appendUnit_mono happ ?_
      rw [hsize₁, h.sound.size_rounded, hsize₂]
      exact Nat.mul_div_le _ _
    simp only [happ']
    refine ⟨⟨hsound', ?_, ?_, ?_⟩, hsize₂⟩
    · have hs₁ : StartsAt TSStoreUnitSize 0 (rounded TSStoreUnitSize q₁) :=
        StartsAt.getLastMapedFile (q := rounded TSStoreUnitSize q) h.starts h.sound.chained
          (fun _ => rfl) hround
      exact StartsAt.setLast (q := q₁) hs₁ hlast hfrom
    · rw [← h.rows]
      exact hunits'.trans (congrArg (· ++ _) hunits)
    · by_cases hd : TSStoreUnitSize ∣ q.mapedFileSize
      · exact .inl (hsize₂ ▸ hd)
      · -- a second file is created only behind a full one
        refine .inr ?_
        have hle := hroom.le h.sound hd
        have hlen : (q₁.setLast f').mapedFiles.length = q₁.mapedFiles.length := by
          have hlast' : q₁.mapedFiles.getLast? = some f := hlast
          have := congrArg List.length (List.dropLast_append_getLast? f hlast')
          simpa [MapedFileQueue.setLast] using this
        rw [hlen]
        obtain ⟨-, -, -, heq | ⟨-, hfiles, -, -, -, -, hfull⟩⟩ :=
          getLastMapedFile_cases h.sound.chained hround
        · have hfiles : (rounded TSStoreUnitSize q₁).mapedFiles =
              (rounded TSStoreUnitSize q).mapedFiles := congrArg MapedFileQueue.mapedFiles heq
          change q₁.mapedFiles = q.mapedFiles at hfiles
          rw [hfiles]
          exact h.single.resolve_left hd
        · have hfiles' : q₁.mapedFiles = q.mapedFiles ++ [f] := hfiles
          rcases h.single.cases h.sound h.starts with heq | hnil | ⟨g, hg, -, hwrote, -⟩
          · have hdvd := h.sound.dvd
            rw [heq] at hdvd
            exact absurd hdvd hd
          · simp [hfiles', hnil]
          · have hg' := hfull g (by change g ∈ q.mapedFiles.getLast?; rw [hg]; rfl)
            have hw : 0 < TSStoreUnitSize := by decide
            rw [h.sound.size_rounded] at hg'
            omega

/-- A row is written over. -/
lemma Held.modify (h : Held rows q) {k : ℕ} (hk : k < (units TSStoreUnitSize q).length)
    {g : Row → Row} (hg : ∀ row, row.isValid → (g row).isValid) :
    Held (rows.modify k g) (updateUnit TSStoreUnitSize q k g) ∧
      (updateUnit TSStoreUnitSize q k g).mapedFileSize = q.mapedFileSize := by
  have hround := updateUnit_rounded h.sound h.starts h.single hk g
  obtain ⟨hsound, hunits, -, hext⟩ := h.sound.updateUnit (m := 0) h.starts hk hg
  rw [Nat.zero_add, ← hround] at hsound hunits hext
  have hsize : (updateUnit TSStoreUnitSize q k g).mapedFileSize = q.mapedFileSize := by
    unfold updateUnit
    split
    · rfl
    · rfl
  refine ⟨⟨hsound, h.starts.of_extents hext, hunits.trans (congrArg (List.modify · k g) h.rows),
    h.single.imp (hsize ▸ ·) fun hlen => ?_⟩, hsize⟩
  have := congrArg List.length hext
  rw [List.length_map, List.length_map] at this
  exact this.trans_le hlen

lemma isValid_state {row : Row} (hrow : row.isValid) {state : Int32}
    (hstate : state = TransactionCommitType ∨ state = TransactionRollbackType) :
    ({ row with state } : Row).isValid := by
  simp only [Row.isValid, Bool.and_eq_true, decide_eq_true_eq] at hrow ⊢
  refine ⟨hrow.1, ?_⟩
  rcases hstate with rfl | rfl
  · rfl
  · rfl

/-- The state of one row is written over. -/
lemma Held.update (h : Held rows q) {tsOffset clOffset : Int64} {groupHashCode state : Int32}
    (hstate : state = TransactionCommitType ∨ state = TransactionRollbackType) :
    ∃ rows', Held rows' (updateTransactionState tsOffset clOffset groupHashCode state q).1 ∧
      (updateTransactionState tsOffset clOffset groupHashCode state q).1.mapedFileSize =
        q.mapedFileSize ∧
      (rows' = rows ∨ ∃ row, rows[tsOffset.toInt.toNat]? = some row ∧ row.clOffset = clOffset ∧
        row.groupHashCode = groupHashCode ∧ row.state = TransactionPreparedType ∧
        rows' = rows.modify tsOffset.toInt.toNat fun row => { row with state }) := by
  unfold updateTransactionState
  cases hfind : findTransactionBuffer tsOffset q with
  | none => exact ⟨rows, h, rfl, .inl rfl⟩
  | some row =>
    have hk : 0 ≤ tsOffset.toInt := by
      by_contra hneg
      rw [findTransactionBuffer, if_pos (by omega)] at hfind
      exact absurd hfind (by simp)
    rw [h.find hk] at hfind
    simp only
    split_ifs with h1 h2 h3
    · exact ⟨rows, h, rfl, .inl rfl⟩
    · exact ⟨rows, h, rfl, .inl rfl⟩
    · exact ⟨rows, h, rfl, .inl rfl⟩
    · push Not at h1 h2 h3
      have hlt : tsOffset.toInt.toNat < (units TSStoreUnitSize q).length := by
        rw [h.rows]
        exact (List.getElem?_eq_some_iff.mp hfind).1
      obtain ⟨hheld, hsize⟩ := h.modify hlt (g := fun row => { row with state }) fun row hrow =>
        isValid_state hrow hstate
      exact ⟨_, hheld, hsize, .inr ⟨row, hfind, h1.symm, h2.symm, h3.symm, rfl⟩⟩

/-- The row of a message that is still prepared gets its state; no other row changes. -/
lemma Held.find_update (h : Held rows q) {k : Int64} (hk : 0 ≤ k.toInt) {row : Row}
    (hrow : rows[k.toInt.toNat]? = some row) {state : Int32}
    (hstate : state = TransactionCommitType ∨ state = TransactionRollbackType) (k' : Int64) :
    findTransactionBuffer k'
        (updateTransactionState k row.clOffset row.groupHashCode state q).1 =
      if k' = k ∧ row.state = TransactionPreparedType then some { row with state }
      else findTransactionBuffer k' q := by
  unfold updateTransactionState
  rw [h.find hk, hrow]
  simp only [ne_eq, not_true_eq_false, if_false]
  by_cases hprep : TransactionPreparedType = row.state
  · have hlt : k.toInt.toNat < (units TSStoreUnitSize q).length := by
      rw [h.rows]
      exact (List.getElem?_eq_some_iff.mp hrow).1
    obtain ⟨hheld, -⟩ := h.modify hlt (g := fun row => { row with state })
      fun row hvalid => isValid_state hvalid hstate
    rw [if_neg (not_not.mpr hprep)]
    by_cases hk' : 0 ≤ k'.toInt
    · rw [hheld.find hk', h.find hk', List.getElem?_modify]
      by_cases heq : k' = k
      · subst heq
        rw [hrow, if_pos ⟨rfl, hprep.symm⟩]
        simp
      · have hne : ¬ k.toInt.toNat = k'.toInt.toNat := fun hc => heq (Int64.toInt_inj.mp (by omega))
        rw [if_neg fun hc => heq hc.1]
        simp only [if_neg hne, Option.map_eq_map, Option.map_id']
    · have hneg : k'.toInt < 0 := by omega
      have heq : ¬ k' = k := fun hc => hk' (hc ▸ hk)
      rw [if_neg fun hc => heq hc.1, findTransactionBuffer, if_pos hneg, findTransactionBuffer,
        if_pos hneg]
  · rw [if_pos hprep, if_neg fun hc => hprep hc.2.symm]

/-- The file that is scanned first is not valid to its end when it ends within a row. -/
lemma Held.not_all_valid (h : Held rows q) (hroom : HasRoom TSStoreUnitSize q)
    (hd : ¬ TSStoreUnitSize ∣ q.mapedFileSize) {f : MapedFile (List Row)}
    (hf : f ∈ q.mapedFiles) : f.mappedByteBuffer.all Row.isValid = false := by
  have hmem : f ∈ (rounded TSStoreUnitSize q).mapedFiles := hf
  have hle := hroom.le h.sound hd
  have hlen := h.sound.mapped f hmem
  have hpos := h.sound.pos
  rw [h.sound.size_rounded] at hlen
  rcases h.single.cases h.sound h.starts with heq | hnil | ⟨g, hg, -, hwrote, -⟩
  · have hdvd := h.sound.dvd
    rw [heq] at hdvd
    exact absurd hdvd hd
  · simp [hnil] at hf
  · obtain rfl : f = g := by simpa [hg] using hf
    have hlt : f.wrotePostion / TSStoreUnitSize < f.mappedByteBuffer.length := by
      rw [Nat.div_lt_iff_lt_mul hpos, Nat.mul_comm]
      omega
    have hlast := List.getElem_mem hlt
    have hbehind : (f.mappedByteBuffer[f.wrotePostion / TSStoreUnitSize]).isValid = false :=
      h.sound.behind f hmem _ (List.mem_drop_iff_getElem.mpr ⟨0, by omega, rfl⟩)
    rw [List.all_eq_false]
    exact ⟨_, hlast, by simp [hbehind]⟩

/-- **A restart.** The rows stay, and the counter is their number. -/
lemma Held.recover (h : Held rows q) (hroom : HasRoom TSStoreUnitSize q) :
    ∃ q' counter, recoverStateTableNormal (reload q) = some (q', counter) ∧ Held rows q' ∧
      q'.mapedFileSize = q.mapedFileSize ∧ counter.getD 0 = Int64.ofNat rows.length := by
  unfold recoverStateTableNormal
  by_cases hnil : q.mapedFiles = []
  · have hnil' : (reload q).mapedFiles = [] := by rw [mapedFiles_reload, hnil]; rfl
    rw [if_pos hnil']
    have hrows : rows = [] := by rw [← h.rows, units, hnil]; rfl
    refine ⟨_, _, rfl, ⟨h.sound.congr (hnil'.trans hnil.symm) rfl, ?_, ?_, ?_⟩, rfl, ?_⟩
    · intro f hf
      simp [hnil'] at hf
    · rw [hrows, units, hnil']
      rfl
    · exact .inr (by simp [hnil'])
    · rw [hrows]
      rfl
  · have hne : ¬ (reload q).mapedFiles = [] := by
      rw [mapedFiles_reload]
      simpa using hnil
    rw [if_neg hne, if_neg]
    · obtain ⟨hsound, hunits, hsize, hext⟩ := recover_rounded h.sound h.starts h.single hroom
      have hlen := congrArg List.length hext
      rw [List.length_map, List.length_map] at hlen
      have hstarts := h.starts.of_extents hext
      refine ⟨_, _, rfl, ⟨hsound, hstarts, hunits.trans h.rows,
        h.single.imp (hsize ▸ ·) (hlen.trans_le ·)⟩, hsize, ?_⟩
      have hmax := hsound.getMaxOffset (m := 0) hstarts (by
        change (recoverUnits TSStoreUnitSize Row.isValid (reload q)).1.mapedFiles ≠ []
        intro hnil'
        rw [hnil', List.length_nil] at hlen
        exact hnil (List.length_eq_zero_iff.mp hlen.symm))
      change (recoverUnits TSStoreUnitSize Row.isValid (reload q)).1.getMaxOffset =
        TSStoreUnitSize * (0 + (units TSStoreUnitSize
          (recoverUnits TSStoreUnitSize Row.isValid (reload q)).1).length) at hmax
      rw [Option.getD_some, hmax, hunits, h.rows, Nat.zero_add,
        Nat.mul_div_cancel_left _ h.sound.pos]
    · rintro ⟨hd, hall⟩
      rw [Option.any_eq_true] at hall
      obtain ⟨f, hf, hvalid⟩ := hall
      have hmem := List.mem_of_mem_drop (List.mem_of_mem_head? hf)
      rw [mapedFiles_reload] at hmem
      obtain ⟨f₀, hf₀, rfl⟩ := List.mem_map.mp hmem
      have hinvalid := h.not_all_valid hroom hd hf₀
      change f₀.mappedByteBuffer.all Row.isValid = true at hvalid
      rw [hinvalid] at hvalid
      exact absurd hvalid (by simp)

end Held

end CloudMQ.TransactionState
