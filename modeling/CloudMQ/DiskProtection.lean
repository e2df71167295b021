import Mathlib.Algebra.Order.Field.Rat
import CloudMQ.Runs

/-!
The protection of the disks: `CleanCommitLogService.isSpaceToDelete`, and the flags of a store.

The commit log and the consume queues lie on two partitions, which are examined one after the other.
One flag says that a disk is full, for both of them; and the queues are not examined when the
partition of the commit log already asks for files to be deleted.
-/

namespace CloudMQ.DiskProtection

open CloudMQ.Runs

/-! ### The flags -/

def NotReadableBit : BitVec 32 := 1

def NotWriteableBit : BitVec 32 := 1 <<< 1

def WriteLogicsQueueErrorBit : BitVec 32 := 1 <<< 2

def WriteIndexFileErrorBit : BitVec 32 := 1 <<< 3

def DiskFullBit : BitVec 32 := 1 <<< 4

structure RunningFlags where
  flagBits : BitVec 32 := 0
deriving DecidableEq

namespace RunningFlags

def set (bit : BitVec 32) (f : RunningFlags) : RunningFlags := ⟨f.flagBits ||| bit⟩

def clear (bit : BitVec 32) (f : RunningFlags) : RunningFlags := ⟨f.flagBits &&& ~~~bit⟩

def isReadable (f : RunningFlags) : Bool := f.flagBits &&& NotReadableBit = 0#32

def getAndMakeReadable (f : RunningFlags) : Bool × RunningFlags :=
  (f.isReadable, if f.isReadable then f else f.clear NotReadableBit)

def getAndMakeNotReadable (f : RunningFlags) : Bool × RunningFlags :=
  (f.isReadable, if f.isReadable then f.set NotReadableBit else f)

def isWriteable (f : RunningFlags) : Bool :=
  f.flagBits &&& (NotWriteableBit ||| WriteLogicsQueueErrorBit ||| DiskFullBit |||
    WriteIndexFileErrorBit) = 0#32

def getAndMakeWriteable (f : RunningFlags) : Bool × RunningFlags :=
  (f.isWriteable, if f.isWriteable then f else f.clear NotWriteableBit)

def getAndMakeNotWriteable (f : RunningFlags) : Bool × RunningFlags :=
  (f.isWriteable, if f.isWriteable then f.set NotWriteableBit else f)

def makeLogicsQueueError (f : RunningFlags) : RunningFlags := f.set WriteLogicsQueueErrorBit

def makeIndexFileError (f : RunningFlags) : RunningFlags := f.set WriteIndexFileErrorBit

/-- The disk is marked full. -/
def diskFull (f : RunningFlags) : Bool := f.flagBits &&& DiskFullBit = DiskFullBit

/-- Whether the disk was in order. -/
def getAndMakeDiskFull (f : RunningFlags) : Bool × RunningFlags := (!f.diskFull, f.set DiskFullBit)

def getAndMakeDiskOK (f : RunningFlags) : Bool × RunningFlags := (!f.diskFull, f.clear DiskFullBit)

variable {f g : RunningFlags}

@[simp] lemma diskFull_makeDiskFull : f.getAndMakeDiskFull.2.diskFull = true := by
  rw [getAndMakeDiskFull, diskFull, set, decide_eq_true_iff, BitVec.and_or_distrib_right,
    BitVec.and_self]
  ext i hi
  simp

@[simp] lemma diskFull_makeDiskOK : f.getAndMakeDiskOK.2.diskFull = false := by
  have hz : f.flagBits &&& ~~~DiskFullBit &&& DiskFullBit = 0#32 := by
    rw [BitVec.and_assoc, BitVec.not_and_self]
    exact BitVec.and_zero
  rw [getAndMakeDiskOK, diskFull, clear, hz]
  decide

/-- The other flags leave this one alone. -/
lemma diskFull_set (bit : BitVec 32) (h : bit &&& DiskFullBit = 0#32) :
    (f.set bit).diskFull = f.diskFull := by
  rw [diskFull, set, BitVec.and_or_distrib_right, h, BitVec.or_zero, diskFull]

lemma diskFull_clear (bit : BitVec 32) (h : bit &&& DiskFullBit = 0#32) :
    (f.clear bit).diskFull = f.diskFull := by
  have hkeep : ~~~bit &&& DiskFullBit = DiskFullBit := by
    calc ~~~bit &&& DiskFullBit = (bit &&& DiskFullBit) ||| (~~~bit &&& DiskFullBit) := by
          rw [h, BitVec.zero_or]
      _ = (bit ||| ~~~bit) &&& DiskFullBit := BitVec.and_or_distrib_right.symm
      _ = DiskFullBit := by rw [BitVec.or_not_self, BitVec.allOnes_and]
  rw [diskFull, clear, BitVec.and_assoc, hkeep, diskFull]

lemma diskFull_ite (b : Bool) (h : g.diskFull = f.diskFull) :
    (if b then f else g).diskFull = f.diskFull ∧ (if b then g else f).diskFull = f.diskFull := by
  cases b
  · exact ⟨h, rfl⟩
  · exact ⟨rfl, h⟩

/-- A store whose disk is marked full takes no messages. -/
lemma not_isWriteable (h : f.diskFull = true) : f.isWriteable = false := by
  rw [diskFull, decide_eq_true_iff] at h
  rw [isWriteable, decide_eq_false_iff_not]
  intro h0
  have hbits : (NotWriteableBit ||| WriteLogicsQueueErrorBit ||| DiskFullBit |||
      WriteIndexFileErrorBit) &&& DiskFullBit = DiskFullBit := by decide
  rw [← hbits, ← BitVec.and_assoc, h0, BitVec.zero_and] at h
  exact absurd h (by decide)

end RunningFlags

/-! ### The service -/

/-- The levels above which a store takes no messages, and above which its files are deleted at
once; both are system properties. -/
structure Levels where
  DiskSpaceWarningLevelRatio : ℚ := 90 / 100
  DiskSpaceCleanForciblyRatio : ℚ := 85 / 100

def getDiskMaxUsedSpaceRatio (diskMaxUsedSpaceRatio : Int32) : Int32 :=
  if diskMaxUsedSpaceRatio < 10 then 10
  else if 95 < diskMaxUsedSpaceRatio then 95
  else diskMaxUsedSpaceRatio

/-- What an examination found, and what it returned. -/
structure Examination where
  ratio : ℚ
  physicRatio : ℚ
  logicsRatio : ℚ
  result : Bool

/-- The service with the flags of its store, and the last examination. -/
structure CleanCommitLogService where
  runningFlags : RunningFlags := {}
  cleanImmediately : Bool := false
  last : Option Examination := none

/-- What is done about one partition. -/
def checkDisk (lv : Levels) (used : ℚ) (s : CleanCommitLogService) : CleanCommitLogService :=
  if lv.DiskSpaceWarningLevelRatio < used then
    { s with runningFlags := s.runningFlags.getAndMakeDiskFull.2, cleanImmediately := true }
  else if lv.DiskSpaceCleanForciblyRatio < used then { s with cleanImmediately := true }
  else { s with runningFlags := s.runningFlags.getAndMakeDiskOK.2 }

def isSpaceToDelete (lv : Levels) (diskMaxUsedSpaceRatio : Int32) (physicRatio logicsRatio : ℚ)
    (s : CleanCommitLogService) : Bool × CleanCommitLogService :=
  let ratio : ℚ := (getDiskMaxUsedSpaceRatio diskMaxUsedSpaceRatio).toInt / 100
  let s := checkDisk lv physicRatio { s with cleanImmediately := false }
  if physicRatio < 0 ∨ ratio < physicRatio then (true, s)
  else
    let s := checkDisk lv logicsRatio s
    if logicsRatio < 0 ∨ ratio < logicsRatio then (true, s) else (false, s)

/-- The service examines the disks; and other parts of the broker set the other flags. -/
inductive Action
  | isSpaceToDelete (diskMaxUsedSpaceRatio : Int32) (physicRatio logicsRatio : Set.Icc (0 : ℚ) 1)
  | getAndMakeReadable
  | getAndMakeNotReadable
  | getAndMakeWriteable
  | getAndMakeNotWriteable
  | makeLogicsQueueError
  | makeIndexFileError

/-- Another part of the broker changes the flags. -/
def flag (op : RunningFlags → RunningFlags) (s : CleanCommitLogService) :
    Option CleanCommitLogService :=
  some { s with runningFlags := op s.runningFlags }

def step (lv : Levels) (s : CleanCommitLogService) : Action → Option CleanCommitLogService
  | .isSpaceToDelete diskMaxUsedSpaceRatio physicRatio logicsRatio =>
    let r := isSpaceToDelete lv diskMaxUsedSpaceRatio physicRatio logicsRatio s
    some ⟨r.2.runningFlags, r.2.cleanImmediately,
      some ⟨(getDiskMaxUsedSpaceRatio diskMaxUsedSpaceRatio).toInt / 100, physicRatio, logicsRatio,
        r.1⟩⟩
  | .getAndMakeReadable => flag (·.getAndMakeReadable.2) s
  | .getAndMakeNotReadable => flag (·.getAndMakeNotReadable.2) s
  | .getAndMakeWriteable => flag (·.getAndMakeWriteable.2) s
  | .getAndMakeNotWriteable => flag (·.getAndMakeNotWriteable.2) s
  | .makeLogicsQueueError => flag (·.makeLogicsQueueError) s
  | .makeIndexFileError => flag (·.makeIndexFileError) s

/-! ### What protects a disk -/

/-- What the last examination has to have done about what it found. -/
structure Handles (lv : Levels) (s : CleanCommitLogService) (e : Examination) : Prop where
  full : lv.DiskSpaceWarningLevelRatio < e.physicRatio ∨
    lv.DiskSpaceWarningLevelRatio < e.logicsRatio →
    s.runningFlags.isWriteable = false ∧ s.runningFlags.diskFull = true
  ok : e.physicRatio ≤ lv.DiskSpaceCleanForciblyRatio ∧
    e.logicsRatio ≤ lv.DiskSpaceCleanForciblyRatio → s.runningFlags.diskFull = false
  clean : lv.DiskSpaceCleanForciblyRatio < e.physicRatio ∨
    lv.DiskSpaceCleanForciblyRatio < e.logicsRatio → s.cleanImmediately = true
  result : e.ratio < e.physicRatio ∨ e.ratio < e.logicsRatio → e.result = true

def Protected (lv : Levels) (s : CleanCommitLogService) : Prop :=
  ∀ e, s.last = some e → Handles lv s e

/-- When an examination protects both disks. If the first one is fuller than the configured ratio
the second is not examined: then the first one has to call for all that the second needs, or the
flag has to be set already. Otherwise the second one must not clear the flag that the first one
needs. -/
def Covers (lv : Levels) (ratio physicRatio logicsRatio : ℚ) (diskFull : Bool) : Prop :=
  let warning := lv.DiskSpaceWarningLevelRatio
  let forcibly := lv.DiskSpaceCleanForciblyRatio
  if ratio < physicRatio then
    if warning < physicRatio then forcibly < physicRatio ∨ forcibly < logicsRatio
    else if forcibly < physicRatio then logicsRatio ≤ warning ∨ diskFull = true
    else logicsRatio ≤ warning ∧ logicsRatio ≤ forcibly
  else
    (warning < physicRatio → forcibly < logicsRatio ∨ warning < logicsRatio) ∧
      (physicRatio ≤ forcibly ∧ logicsRatio ≤ forcibly → logicsRatio ≤ warning)

/-- The condition on a step; the other flags may change at any time. -/
def Allowed (lv : Levels) (s : CleanCommitLogService) : Action → Prop
  | .isSpaceToDelete diskMaxUsedSpaceRatio physicRatio logicsRatio =>
    Covers lv ((getDiskMaxUsedSpaceRatio diskMaxUsedSpaceRatio).toInt / 100) physicRatio
      logicsRatio s.runningFlags.diskFull
  | _ => True

variable {lv : Levels} {s s' : CleanCommitLogService} {used physicRatio logicsRatio : ℚ}

/-- With the levels in their order, an examination fails in two ways only. -/
theorem covers_iff_of_le {ratio : ℚ} {diskFull : Bool}
    (hle : lv.DiskSpaceCleanForciblyRatio ≤ lv.DiskSpaceWarningLevelRatio) :
    Covers lv ratio physicRatio logicsRatio diskFull ↔
      if ratio < physicRatio then
        lv.DiskSpaceWarningLevelRatio < physicRatio ∨
        lv.DiskSpaceCleanForciblyRatio < physicRatio ∧
          (logicsRatio ≤ lv.DiskSpaceWarningLevelRatio ∨ diskFull = true) ∨
        logicsRatio ≤ lv.DiskSpaceCleanForciblyRatio
      else physicRatio ≤ lv.DiskSpaceWarningLevelRatio ∨
        lv.DiskSpaceCleanForciblyRatio < logicsRatio := by
  rw [Covers]
  grind

lemma diskFull_checkDisk : (checkDisk lv used s).runningFlags.diskFull =
    if lv.DiskSpaceWarningLevelRatio < used then true
    else if lv.DiskSpaceCleanForciblyRatio < used then s.runningFlags.diskFull
    else false := by
  rw [checkDisk]
  split
  · exact RunningFlags.diskFull_makeDiskFull
  · split
    · rfl
    · exact RunningFlags.diskFull_makeDiskOK

lemma cleanImmediately_checkDisk : (checkDisk lv used s).cleanImmediately = true ↔
    lv.DiskSpaceWarningLevelRatio < used ∨ lv.DiskSpaceCleanForciblyRatio < used ∨
      s.cleanImmediately = true := by
  rw [checkDisk]
  split
  case isTrue h => simp [h]
  case isFalse h =>
    split
    case isTrue h' => simp [h']
    case isFalse h' => simp [h, h']

/-- An examination, when the ratios are those of disks. -/
lemma isSpaceToDelete_spec {diskMaxUsedSpaceRatio : Int32} {ratio : ℚ} (hp : 0 ≤ physicRatio)
    (hl : 0 ≤ logicsRatio)
    (hratio : ratio = (getDiskMaxUsedSpaceRatio diskMaxUsedSpaceRatio).toInt / 100) :
    let first := checkDisk lv physicRatio { s with cleanImmediately := false }
    isSpaceToDelete lv diskMaxUsedSpaceRatio physicRatio logicsRatio s =
      if ratio < physicRatio then (true, first)
      else (decide (ratio < logicsRatio), checkDisk lv logicsRatio first) := by
  simp only [isSpaceToDelete, not_lt.mpr hp, not_lt.mpr hl, false_or, ← hratio]
  split
  · rfl
  · by_cases h : ratio < logicsRatio
    · rw [if_pos h, decide_eq_true h]
    · rw [if_neg h, decide_eq_false h]

/-- An examination handles what it found exactly when it covers both partitions. -/
lemma protected_examination_iff {diskMaxUsedSpaceRatio : Int32} {p l : Set.Icc (0 : ℚ) 1}
    (hs : step lv s (.isSpaceToDelete diskMaxUsedSpaceRatio p l) = some s') :
    Protected lv s' ↔ Covers lv ((getDiskMaxUsedSpaceRatio diskMaxUsedSpaceRatio).toInt / 100) p l
      s.runningFlags.diskFull := by
  have hspec := @isSpaceToDelete_spec lv s p l diskMaxUsedSpaceRatio _ p.2.1 l.2.1 rfl
  rw [step] at hs
  generalize ((getDiskMaxUsedSpaceRatio diskMaxUsedSpaceRatio).toInt / 100 : ℚ) = ratio
    at hspec hs ⊢
  generalize isSpaceToDelete lv diskMaxUsedSpaceRatio p l s = r at hspec hs
  obtain rfl := Option.some.inj hs
  have hfull : r.2.runningFlags.isWriteable = false ∧ r.2.runningFlags.diskFull = true ↔
      r.2.runningFlags.diskFull = true :=
    ⟨And.right, fun h => ⟨RunningFlags.not_isWriteable h, h⟩⟩
  have hhandles : Protected lv ⟨r.2.runningFlags, r.2.cleanImmediately, some ⟨ratio, p, l, r.1⟩⟩ ↔
      (lv.DiskSpaceWarningLevelRatio < p ∨ lv.DiskSpaceWarningLevelRatio < l →
        r.2.runningFlags.diskFull = true) ∧
      (p ≤ lv.DiskSpaceCleanForciblyRatio ∧ l ≤ lv.DiskSpaceCleanForciblyRatio →
        r.2.runningFlags.diskFull = false) ∧
      (lv.DiskSpaceCleanForciblyRatio < p ∨ lv.DiskSpaceCleanForciblyRatio < l →
        r.2.cleanImmediately = true) ∧
      (ratio < p ∨ ratio < l → r.1 = true) := by
    rw [← hfull]
    constructor
    · intro h
      have he := h _ rfl
      exact ⟨he.full, he.ok, he.clean, he.result⟩
    · rintro ⟨h1, h2, h3, h4⟩ e he
      obtain rfl := Option.some.inj he
      exact ⟨h1, h2, h3, h4⟩
  rw [hhandles, hspec, Covers]
  by_cases hskip : ratio < p
  · -- the partition of the queues is not examined
    simp only [if_pos hskip, diskFull_checkDisk, cleanImmediately_checkDisk]
    grind
  · simp only [if_neg hskip, diskFull_checkDisk, cleanImmediately_checkDisk]
    grind

/-- Other flags do not change what the last examination did. -/
lemma handles_flag {op : RunningFlags → RunningFlags} {e : Examination}
    (hop : (op s.runningFlags).diskFull = s.runningFlags.diskFull)
    (h : Handles lv s e) : Handles lv { s with runningFlags := op s.runningFlags } e where
  full hf := ⟨RunningFlags.not_isWriteable (hop.trans (h.full hf).2), hop.trans (h.full hf).2⟩
  ok hok := hop.trans (h.ok hok)
  clean := h.clean
  result := h.result

lemma protected_flag {op : RunningFlags → RunningFlags} (h : Protected lv s)
    (hs : flag op s = some s') (hop : (op s.runningFlags).diskFull = s.runningFlags.diskFull) :
    Protected lv s' := by
  obtain rfl := Option.some.inj hs
  exact fun e he => handles_flag hop (h e he)

/-- What one step keeps. -/
lemma protected_step {a : Action} (h : Protected lv s) (hok : Allowed lv s a)
    (hs : step lv s a = some s') : Protected lv s' := by
  cases a with
  | isSpaceToDelete diskMaxUsedSpaceRatio physicRatio logicsRatio =>
    exact (protected_examination_iff hs).mpr hok
  | getAndMakeReadable =>
    rw [step] at hs
    have hclear := RunningFlags.diskFull_clear (f := s.runningFlags) NotReadableBit (by decide)
    exact protected_flag h hs (RunningFlags.diskFull_ite _ hclear).1
  | getAndMakeNotReadable =>
    rw [step] at hs
    have hset := RunningFlags.diskFull_set (f := s.runningFlags) NotReadableBit (by decide)
    exact protected_flag h hs (RunningFlags.diskFull_ite _ hset).2
  | getAndMakeWriteable =>
    rw [step] at hs
    have hclear := RunningFlags.diskFull_clear (f := s.runningFlags) NotWriteableBit (by decide)
    exact protected_flag h hs (RunningFlags.diskFull_ite _ hclear).1
  | getAndMakeNotWriteable =>
    rw [step] at hs
    have hset := RunningFlags.diskFull_set (f := s.runningFlags) NotWriteableBit (by decide)
    exact protected_flag h hs (RunningFlags.diskFull_ite _ hset).2
  | makeLogicsQueueError =>
    exact protected_flag h hs (RunningFlags.diskFull_set WriteLogicsQueueErrorBit (by decide))
  | makeIndexFileError =>
    exact protected_flag h hs (RunningFlags.diskFull_set WriteIndexFileErrorBit (by decide))

/-- A step that leaves the disks protected is allowed. -/
lemma allowed_of_protected {a : Action}
    (h : ∀ s', step lv s a = some s' → Protected lv s') : Allowed lv s a := by
  cases a with
  | isSpaceToDelete diskMaxUsedSpaceRatio physicRatio logicsRatio =>
    exact (protected_examination_iff rfl).mp (h _ rfl)
  | _ => trivial

/-- **Disk protection.** The disks are protected all along a run, from a store just started with
any flags, exactly when every examination of the run covers both partitions. -/
theorem protected_along_iff (lv : Levels) (flags : RunningFlags) (as : List Action) :
    (∀ as', as' <+: as → ∀ s, run (step lv) { runningFlags := flags } as' = some s →
      Protected lv s) ↔
    Meets (step lv) (Allowed lv) { runningFlags := flags } as :=
  holds_along_iff (fun _ _ _ => protected_step) (fun _ h => h)
    (fun _ _ _ => allowed_of_protected) fun _ he => by cases he

/-- With the default levels, a commit log at 80 % of its disk, above the configured 75 %, keeps the
service from seeing that the disk of the queues is at 95 %. -/
theorem not_protected_queues :
    ¬∀ (as : List Action) (s : CleanCommitLogService), run (step {}) {} as = some s →
      Protected {} s := by
  intro h
  have hp : (80 / 100 : ℚ) ∈ Set.Icc (0 : ℚ) 1 := by norm_num
  have hl : (95 / 100 : ℚ) ∈ Set.Icc (0 : ℚ) 1 := by norm_num
  have hrun := (protected_examination_iff rfl).mp
    (h [.isSpaceToDelete 75 ⟨80 / 100, hp⟩ ⟨95 / 100, hl⟩] _ rfl)
  have hratio : (getDiskMaxUsedSpaceRatio 75).toInt = 75 := by decide
  norm_num [Covers, hratio] at hrun

end CloudMQ.DiskProtection
