import CloudMQ.CommitLog
import CloudMQ.Units

/-!
Consume queues: one entry for each message of a topic and queue, with the place of its record in
the commit log.

Entries are put by the dispatch service, one at a time. An entry whose record does not lie behind
the last one put is left out, and a queue that begins in the middle of a file is filled up with
blank entries before its first one.
-/

namespace CloudMQ.ConsumeQueues

open CloudMQ.Utf8 CloudMQ.Message CloudMQ.Record CloudMQ.Segment CloudMQ.Chain CloudMQ.Units

def CQStoreUnitSize : ℕ := 20

/-- The place of a record. -/
structure CQUnit where
  offset : Int64
  size : Int32
  tagsCode : Int64
  deriving DecidableEq, Repr

/-- What recovery takes for an entry. -/
def CQUnit.isValid (u : CQUnit) : Bool := decide (0 ≤ u.offset.toInt) && decide (0 < u.size.toInt)

/-- The entry `fillPreBlank` writes. -/
def preBlank : CQUnit := ⟨0, Int32.maxValue, 0⟩

structure ConsumeQueue where
  mapedFileQueue : MapedFileQueue (List CQUnit)
  maxPhysicOffset : Int64 := -1
  minLogicOffset : ℕ := 0

/-- A new file is full of zeros. -/
def newUnits (size : ℕ) : List CQUnit := List.replicate (size / CQStoreUnitSize) ⟨0, 0, 0⟩

def fillPreBlank (size : ℕ) : ℕ → MapedFile (List CQUnit) → MapedFile (List CQUnit)
  | 0, f => f
  | n + 1, f => fillPreBlank size n ((appendUnit CQStoreUnitSize size preBlank f).getD f)

namespace ConsumeQueue

/-- The first file of a queue gets blank entries up to the first real one. -/
def isPreBlank (f : MapedFile (List CQUnit)) (cqOffset : ℕ) : Prop :=
  f.firstCreateInQueue ∧ cqOffset ≠ 0 ∧ f.wrotePostion = 0

instance (f : MapedFile (List CQUnit)) (cqOffset : ℕ) : Decidable (isPreBlank f cqOffset) :=
  inferInstanceAs (Decidable (_ ∧ _ ∧ _))

def preFilled (size : ℕ) (f : MapedFile (List CQUnit)) (cqOffset : ℕ) : MapedFile (List CQUnit) :=
  if isPreBlank f cqOffset then
    fillPreBlank size (cqOffset * CQStoreUnitSize % size / CQStoreUnitSize) f
  else f

/-- `ConsumeQueue.putMessagePostionInfo`; `created` says whether a new file can be created. An
entry at another place than the expected one is only logged. -/
def putMessagePostionInfo (created : Bool) (u : CQUnit) (cqOffset : ℕ) (cq : ConsumeQueue) :
    ConsumeQueue × Bool :=
  if u.offset.toInt ≤ cq.maxPhysicOffset.toInt then (cq, true)
  else
    let size := cq.mapedFileQueue.mapedFileSize
    let expectLogicOffset := cqOffset * CQStoreUnitSize
    match cq.mapedFileQueue.getLastMapedFile expectLogicOffset
        (if created then some (newUnits size) else none) with
    | (none, q) => ({ cq with mapedFileQueue := q }, false)
    | (some f, q) =>
      let minLogicOffset :=
        if isPreBlank f cqOffset then expectLogicOffset else cq.minLogicOffset
      match appendUnit CQStoreUnitSize size u (preFilled size f cqOffset) with
      | none => (⟨q.setLast (preFilled size f cqOffset), u.offset, minLogicOffset⟩, false)
      | some f => (⟨q.setLast f, u.offset, minLogicOffset⟩, true)

/-- The tries that are left; `created i` is about the one that leaves `i`. -/
def putRetrying (created : ℕ → Bool) (u : CQUnit) (cqOffset : ℕ) :
    ℕ → ConsumeQueue → ConsumeQueue × Bool
  | 0, cq => (cq, false)
  | n + 1, cq =>
    match putMessagePostionInfo (created n) u cqOffset cq with
    | (cq, true) => (cq, true)
    | (cq, false) => putRetrying created u cqOffset n cq

def MaxRetries : ℕ := 5

/-- `putMessagePostionInfoWrapper`. When it answers `false`, the store is marked with a logics
queue error. -/
def putMessagePostionInfoWrapper (writeable : Bool) (created : ℕ → Bool) (u : CQUnit)
    (cqOffset : ℕ) (cq : ConsumeQueue) : ConsumeQueue × Bool :=
  if writeable then putRetrying created u cqOffset MaxRetries cq else (cq, false)

def getMaxOffsetInQuque (cq : ConsumeQueue) : ℕ :=
  cq.mapedFileQueue.getMaxOffset / CQStoreUnitSize

def getMinOffsetInQuque (cq : ConsumeQueue) : ℕ := cq.minLogicOffset / CQStoreUnitSize

/-- `ConsumeQueue.recover` on a queue that was just loaded. -/
def recover (cq : ConsumeQueue) : ConsumeQueue :=
  let r := recoverUnits CQStoreUnitSize CQUnit.isValid cq.mapedFileQueue
  { cq with mapedFileQueue := r.1
            maxPhysicOffset := (r.2.getLast?.map CQUnit.offset).getD cq.maxPhysicOffset }

/-- The first entry of the first file whose record does not lie before `phyMinOffset`. -/
def correctMinOffset (phyMinOffset : ℤ) (cq : ConsumeQueue) : ConsumeQueue :=
  match cq.mapedFileQueue.mapedFiles.head? with
  | none => cq
  | some f =>
    if f.available then
      match (unitsOf CQStoreUnitSize f).findIdx?
          fun u => decide (phyMinOffset ≤ u.offset.toInt) with
      | none => cq
      | some i => { cq with minLogicOffset := f.fileFromOffset + CQStoreUnitSize * i }
    else cq

/-- A queue as `load` finds it on the disk. -/
def load (cq : ConsumeQueue) : ConsumeQueue := ⟨reload cq.mapedFileQueue, -1, 0⟩

/-- The entries of a queue, the blank ones in front included. -/
def entries (cq : ConsumeQueue) : List CQUnit := units CQStoreUnitSize cq.mapedFileQueue

end ConsumeQueue

/-! ### What one put does -/

section Put

variable {cq : ConsumeQueue} {u : CQUnit} {cqOffset : ℕ}

lemma isValid_preBlank : preBlank.isValid := by decide

/-- The files are sound, and `maxPhysicOffset` is the place of the last entry. -/
structure Tracked (cq : ConsumeQueue) : Prop extends
    Sound CQStoreUnitSize CQUnit.isValid cq.mapedFileQueue where
  max_eq : cq.maxPhysicOffset = (cq.entries.getLast?.map CQUnit.offset).getD (-1)

lemma length_newUnits {size : ℕ} (h : CQStoreUnitSize ∣ size) :
    CQStoreUnitSize * (newUnits size).length = size := by
  rw [newUnits, List.length_replicate, Nat.mul_div_cancel' h]

lemma invalid_newUnits {size : ℕ} : ∀ u ∈ newUnits size, u.isValid = false := by
  intro u hu
  rw [List.eq_of_mem_replicate hu]
  rfl

/-- Blank entries, as many as there is room for before the last unit of the file. -/
lemma fillPreBlank_spec {q : MapedFileQueue (List CQUnit)} {f : MapedFile (List CQUnit)}
    (h : Sound CQStoreUnitSize CQUnit.isValid q) (hlast : q.mapedFiles.getLast? = some f) {n : ℕ}
    (hroom : f.wrotePostion + CQStoreUnitSize * n < q.mapedFileSize) :
    let f' := fillPreBlank q.mapedFileSize n f
    Sound CQStoreUnitSize CQUnit.isValid (q.setLast f') ∧
      units CQStoreUnitSize (q.setLast f') =
        units CQStoreUnitSize q ++ List.replicate n preBlank ∧
      f'.fileFromOffset = f.fileFromOffset ∧
      f'.wrotePostion = f.wrotePostion + CQStoreUnitSize * n := by
  induction n generalizing q f with
  | zero =>
    have hq : q.setLast f = q := by
      rw [MapedFileQueue.setLast, List.dropLast_append_getLast? f hlast]
    simpa [fillPreBlank, hq] using h
  | succ n ih =>
    rw [Nat.mul_succ] at hroom ⊢
    obtain ⟨f₁, happ, hsound, hunits, hfrom, hwrote⟩ :=
      h.appendUnit hlast (by omega) isValid_preBlank
    have hlast₁ : (q.setLast f₁).mapedFiles.getLast? = some f₁ := by
      simp [MapedFileQueue.setLast]
    have hsize : (q.setLast f₁).mapedFileSize = q.mapedFileSize := rfl
    have hset : ∀ f₂, (q.setLast f₁).setLast f₂ = q.setLast f₂ := by
      intro f₂
      simp [MapedFileQueue.setLast]
    obtain ⟨h1, h2, h3, h4⟩ := ih hsound hlast₁ (by rw [hsize, hwrote]; omega)
    rw [hset, hsize] at h1 h2
    rw [hsize] at h3 h4
    simp only [fillPreBlank, happ, Option.getD_some]
    refine ⟨h1, ?_, h3.trans hfrom, by rw [h4, hwrote]; omega⟩
    rw [h2, hunits, List.append_assoc, List.replicate_succ]
    rfl

/-- The file an entry goes to: `n` blank entries in front of it at the most. -/
lemma preFilled_spec {q : MapedFileQueue (List CQUnit)} {f : MapedFile (List CQUnit)}
    (h : Sound CQStoreUnitSize CQUnit.isValid q) (hlast : q.mapedFiles.getLast? = some f)
    (hlt : f.wrotePostion < q.mapedFileSize) (cqOffset : ℕ) :
    ∃ n, Sound CQStoreUnitSize CQUnit.isValid
        (q.setLast (ConsumeQueue.preFilled q.mapedFileSize f cqOffset)) ∧
      units CQStoreUnitSize (q.setLast (ConsumeQueue.preFilled q.mapedFileSize f cqOffset)) =
        units CQStoreUnitSize q ++ List.replicate n preBlank ∧
      (ConsumeQueue.preFilled q.mapedFileSize f cqOffset).fileFromOffset = f.fileFromOffset ∧
      (ConsumeQueue.preFilled q.mapedFileSize f cqOffset).wrotePostion =
        f.wrotePostion + CQStoreUnitSize * n ∧
      f.wrotePostion + CQStoreUnitSize * n < q.mapedFileSize ∧
      n = if ConsumeQueue.isPreBlank f cqOffset then
        cqOffset * CQStoreUnitSize % q.mapedFileSize / CQStoreUnitSize else 0 := by
  have hfill : f.wrotePostion + CQStoreUnitSize * (if ConsumeQueue.isPreBlank f cqOffset then
      cqOffset * CQStoreUnitSize % q.mapedFileSize / CQStoreUnitSize else 0) <
      q.mapedFileSize := by
    split
    · next hpre =>
      have hmod := Nat.mod_lt (cqOffset * CQStoreUnitSize) q.size_pos
      have hdiv := Nat.mul_div_le (cqOffset * CQStoreUnitSize % q.mapedFileSize) CQStoreUnitSize
      rw [hpre.2.2]
      omega
    · exact hlt
  have hpre : ConsumeQueue.preFilled q.mapedFileSize f cqOffset =
      fillPreBlank q.mapedFileSize (if ConsumeQueue.isPreBlank f cqOffset then
        cqOffset * CQStoreUnitSize % q.mapedFileSize / CQStoreUnitSize else 0) f := by
    unfold ConsumeQueue.preFilled
    split
    · rfl
    · rfl
  obtain ⟨h1, h2, h3, h4⟩ := fillPreBlank_spec h hlast hfill
  rw [hpre]
  exact ⟨_, h1, h2, h3, h4, hfill, rfl⟩

/-- The queue after an entry was put: the files hold one entry more, behind blank ones. -/
structure Entered (cq : ConsumeQueue) (u : CQUnit) (cq' : ConsumeQueue) : Prop where
  tracked : Tracked cq'
  entries : ∃ n, cq'.entries = cq.entries ++ List.replicate n preBlank ++ [u]
  size_eq : cq'.mapedFileQueue.mapedFileSize = cq.mapedFileQueue.mapedFileSize

/-- What one try does: the entry is there already, it is put, or no file can be had for it. -/
lemma put_cases (h : Tracked cq) (hu : u.isValid) (created : Bool) :
    u.offset.toInt ≤ cq.maxPhysicOffset.toInt ∧
        cq.putMessagePostionInfo created u cqOffset = (cq, true) ∨
      cq.maxPhysicOffset.toInt < u.offset.toInt ∧
        (∃ cq', cq.putMessagePostionInfo created u cqOffset = (cq', true) ∧ Entered cq u cq' ∨
          created = false ∧ cq.putMessagePostionInfo created u cqOffset = (cq, false)) := by
  unfold ConsumeQueue.putMessagePostionInfo
  by_cases hle : u.offset.toInt ≤ cq.maxPhysicOffset.toInt
  · exact .inl ⟨hle, by rw [if_pos hle]⟩
  · refine .inr ⟨by omega, ?_⟩
    rw [if_neg hle]
    simp only
    split
    · next q hq =>
      obtain ⟨rfl, hfresh⟩ := getLastMapedFile_none hq
      refine ⟨cq, .inr ⟨?_, rfl⟩⟩
      cases created with
      | false => rfl
      | true => simp at hfresh
    · next f q hq =>
      obtain ⟨hsound, hunits, hsize, hlast, hroom⟩ := h.toSound.getLastMapedFile
        (fun mem hmem => by
          split at hmem
          · obtain rfl := Option.mem_some_iff.mp hmem
            exact ⟨length_newUnits h.dvd, invalid_newUnits⟩
          · simp at hmem) hq
      rw [← hsize] at hroom ⊢
      obtain ⟨n, h1, h2, h3, h4, h5, -⟩ := preFilled_spec hsound hlast hroom cqOffset
      have hlast' :
          (q.setLast (ConsumeQueue.preFilled q.mapedFileSize f cqOffset)).mapedFiles.getLast? =
            some (ConsumeQueue.preFilled q.mapedFileSize f cqOffset) := by
        simp [MapedFileQueue.setLast]
      obtain ⟨f', happ, h6, h7, -⟩ := h1.appendUnit hlast' (by rw [h4]; exact h5) hu
      have hset : (q.setLast (ConsumeQueue.preFilled q.mapedFileSize f cqOffset)).setLast f' =
          q.setLast f' := by
        simp [MapedFileQueue.setLast]
      rw [hset] at h6 h7
      change appendUnit CQStoreUnitSize q.mapedFileSize u _ = some f' at happ
      rw [happ]
      have hentries : units CQStoreUnitSize (q.setLast f') =
          cq.entries ++ List.replicate n preBlank ++ [u] := by
        rw [h7, h2, hunits]
        rfl
      refine ⟨_, .inl ⟨rfl, ⟨h6, ?_⟩, ⟨n, hentries⟩, hsize⟩⟩
      rw [ConsumeQueue.entries, hentries, List.getLast?_concat]
      rfl

/-- The tries together: as long as files can be created, the entry is in the queue. -/
lemma putRetrying_cases (h : Tracked cq) (hu : u.isValid) (created : ℕ → Bool) (n : ℕ) :
    u.offset.toInt ≤ cq.maxPhysicOffset.toInt ∧
        (ConsumeQueue.putRetrying created u cqOffset n cq).1 = cq ∨
      cq.maxPhysicOffset.toInt < u.offset.toInt ∧
        (∃ cq', ConsumeQueue.putRetrying created u cqOffset n cq = (cq', true) ∧
            Entered cq u cq' ∨
          (∀ i < n, created i = false) ∧
            ConsumeQueue.putRetrying created u cqOffset n cq = (cq, false)) := by
  induction n with
  | zero =>
    by_cases hle : u.offset.toInt ≤ cq.maxPhysicOffset.toInt
    · exact .inl ⟨hle, rfl⟩
    · exact .inr ⟨by omega, cq, .inr ⟨by simp, rfl⟩⟩
  | succ n ih =>
    rw [ConsumeQueue.putRetrying]
    rcases @put_cases cq u cqOffset h hu (created n) with
      ⟨hle, hput⟩ | ⟨hlt, cq', ⟨hput, hent⟩ | ⟨hcr, hput⟩⟩
    · rw [hput]
      exact .inl ⟨hle, rfl⟩
    · rw [hput]
      exact .inr ⟨hlt, cq', .inl ⟨rfl, hent⟩⟩
    · rw [hput]
      refine ih.imp_right fun ⟨h1, cq', h2⟩ => ⟨h1, cq', h2.imp_right fun ⟨h3, h4⟩ => ⟨?_, h4⟩⟩
      intro i hi
      rcases Nat.lt_succ_iff_lt_or_eq.mp hi with hi | rfl
      · exact h3 i hi
      · exact hcr

/-- **Putting an entry.** It is left out, it is put behind the others, or the store cannot be
written. -/
lemma putWrapper_cases (h : Tracked cq) (hu : u.isValid) (writeable : Bool)
    (created : ℕ → Bool) :
    u.offset.toInt ≤ cq.maxPhysicOffset.toInt ∧
        (cq.putMessagePostionInfoWrapper writeable created u cqOffset).1 = cq ∨
      cq.maxPhysicOffset.toInt < u.offset.toInt ∧
        (∃ cq', cq.putMessagePostionInfoWrapper writeable created u cqOffset = (cq', true) ∧
            Entered cq u cq' ∨
          ¬ (writeable ∧ ∃ i < ConsumeQueue.MaxRetries, created i) ∧
            cq.putMessagePostionInfoWrapper writeable created u cqOffset = (cq, false)) := by
  unfold ConsumeQueue.putMessagePostionInfoWrapper
  cases writeable with
  | false =>
    by_cases hle : u.offset.toInt ≤ cq.maxPhysicOffset.toInt
    · exact .inl ⟨hle, rfl⟩
    · exact .inr ⟨by omega, cq, .inr ⟨by simp, rfl⟩⟩
  | true =>
    refine (putRetrying_cases h hu created ConsumeQueue.MaxRetries).imp_right
      fun ⟨h1, cq', h2⟩ => ⟨h1, cq', h2.imp_right fun ⟨h3, h4⟩ => ⟨?_, h4⟩⟩
    rintro ⟨-, i, hi, hcr⟩
    simp [h3 i hi] at hcr

end Put

/-! ### The table -/

section Table

/-- Queues by topic and queue id. -/
abbrev ConsumeQueueTable := Text × Int32 → Option ConsumeQueue

/-- A queue without files; `size` is that of its files. -/
def newQueue (size : ℕ) (hpos : 0 < size) : ConsumeQueue := ⟨Chain.empty size hpos, -1, 0⟩

lemma tracked_newQueue {size : ℕ} (hpos : 0 < size) (hdvd : CQStoreUnitSize ∣ size) :
    Tracked (newQueue size hpos) :=
  ⟨Sound.nil rfl hdvd, rfl⟩

/-- **A restart.** A queue that is loaded and recovered has its entries. -/
lemma Tracked.restart {cq : ConsumeQueue} (h : Tracked cq) :
    Tracked cq.load.recover ∧ cq.load.recover.entries = cq.entries ∧
      cq.load.recover.maxPhysicOffset = cq.maxPhysicOffset ∧
      cq.load.recover.mapedFileQueue.mapedFileSize = cq.mapedFileQueue.mapedFileSize := by
  obtain ⟨hsound, hunits, hsize, -, hlast⟩ := h.toSound.recover
  have hmax : cq.load.recover.maxPhysicOffset = cq.maxPhysicOffset := by
    rw [h.max_eq, ConsumeQueue.entries, ← hlast]
    rfl
  refine ⟨⟨hsound, ?_⟩, hunits, hmax, hsize⟩
  rw [hmax, h.max_eq]
  exact congrArg (fun us : List CQUnit => (us.getLast?.map CQUnit.offset).getD (-1)) hunits.symm

end Table

end CloudMQ.ConsumeQueues
