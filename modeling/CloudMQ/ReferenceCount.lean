import Mathlib.Algebra.BigOperators.Group.Finset.Basic
import Mathlib.Algebra.Order.BigOperators.Group.Finset
import Mathlib.Data.Fintype.Option
import CloudMQ.Runs

/-!
The references to a mapped file: readers hold and release it, the managing thread shuts it down, and
whoever brings the count down to zero after that unmaps the buffer.

The count is an atomic variable, the availability another; `hold` and the end of `release` run in
the monitor of the file. As long as no shutdown was forced the count is the number of those that
hold the file, one more while it is available, and one more for a reader that was refused and has
not yet taken its increment back.
-/

namespace CloudMQ.ReferenceCount

open CloudMQ.Runs

/-- Where a thread is in `release`, and in the `cleanup` that it calls. -/
inductive Release
  | decrement
  /-- the count is not positive, and the monitor not entered yet -/
  | enter
  | isAvailable
  | refCount
  | cleanupOver
  | clean
  | assign (result : Bool)
  | exit
deriving DecidableEq

/-- Where a thread is. -/
inductive Pc
  | idle
  /-- in `hold`, in the monitor -/
  | isAvailable
  | increment
  | undo
  | returns (held : Bool)
  /-- has held the file, and not released it -/
  | holding
  | release (r : Release)
  /-- in `shutdown` -/
  | readAvailable (intervalForcibly : ℤ)
  | makeUnavailable
  | stamp
  | getRefCount (intervalForcibly : ℤ)
  | elapsed (intervalForcibly : ℤ)
  | readCount
  | setCount (refCount : ℤ)
  /-- in `destroy`, after the shutdown -/
  | destroyCount
  | destroyOver
deriving DecidableEq

/-- A mapped file with the threads that use it: `none` is the managing thread, and the others are
readers. `unmapped` counts how often the buffer was unmapped; `forced` says that the count was
overwritten. -/
structure MapedFile (ι : Type) where
  refCount : ℤ := 1
  available : Bool := true
  cleanupOver : Bool := false
  firstShutdownTimestamp : ℤ := 0
  monitor : Option (Option ι) := none
  pc : Option ι → Pc := fun _ => .idle
  destroying : Bool := false
  unmapped : ℕ := 0
  forced : Bool := false
  deleted : Bool := false

variable {ι : Type}

section Step

variable [DecidableEq ι]

def goto (t : Option ι) (pc : Pc) (s : MapedFile ι) : MapedFile ι :=
  { s with pc := Function.update s.pc t pc }

/-- A step of `release`; `back` is where the thread goes on afterwards. -/
def releaseStep (t : Option ι) (back : Pc) (s : MapedFile ι) : Release → Option (MapedFile ι)
  | .decrement =>
    let value := s.refCount - 1
    some (goto t (if 0 < value then back else .release .enter) { s with refCount := value })
  | .enter =>
    if s.monitor = none then some (goto t (.release .isAvailable) { s with monitor := some t })
    else none
  | .isAvailable =>
    some (goto t (.release (if s.available then .assign false else .refCount)) s)
  | .refCount => some (goto t (.release (if s.refCount ≤ 0 then .cleanupOver else .clean)) s)
  | .cleanupOver => some (goto t (.release (if s.cleanupOver then .assign true else .clean)) s)
  | .clean => some (goto t (.release (.assign true)) { s with unmapped := s.unmapped + 1 })
  | .assign result => some (goto t (.release .exit) { s with cleanupOver := result })
  | .exit => some (goto t back { s with monitor := none })

/-- A step of a reader, which holds the file and releases it again. -/
def readerStep (i : ι) (s : MapedFile ι) : Option (MapedFile ι) :=
  match s.pc (some i) with
  | .idle =>
    if s.monitor = none then some (goto (some i) .isAvailable { s with monitor := some (some i) })
    else none
  | .isAvailable => some (goto (some i) (if s.available then .increment else .returns false) s)
  | .increment =>
    some (goto (some i) (if 0 < s.refCount then .returns true else .undo)
      { s with refCount := s.refCount + 1 })
  | .undo => some (goto (some i) (.returns false) { s with refCount := s.refCount - 1 })
  | .returns held =>
    some (goto (some i) (if held then .holding else .idle) { s with monitor := none })
  | .holding => some (goto (some i) (.release .decrement) s)
  | .release r => releaseStep (some i) .idle s r
  | _ => none

/-- Where the managing thread goes on after a shutdown. -/
def afterShutdown (destroying : Bool) : Pc := if destroying then .destroyCount else .idle

/-- A step of the managing thread, at a time. -/
def managerStep (now : ℤ) (s : MapedFile ι) : Option (MapedFile ι) :=
  match s.pc none with
  | .readAvailable interval =>
    some (goto none (if s.available then .makeUnavailable else .getRefCount interval) s)
  | .makeUnavailable => some (goto none .stamp { s with available := false })
  | .stamp => some (goto none (.release .decrement) { s with firstShutdownTimestamp := now })
  | .release r => releaseStep none (afterShutdown s.destroying) s r
  | .getRefCount interval =>
    some (goto none (if 0 < s.refCount then .elapsed interval else afterShutdown s.destroying) s)
  | .elapsed interval =>
    some (goto none (if interval ≤ now - s.firstShutdownTimestamp then .readCount
      else afterShutdown s.destroying) s)
  | .readCount => some (goto none (.setCount s.refCount) s)
  | .setCount refCount =>
    some (goto none (.release .decrement) { s with refCount := -1000 - refCount, forced := true })
  | .destroyCount => some (goto none (if s.refCount ≤ 0 then .destroyOver else .idle) s)
  | .destroyOver => some (goto none .idle { s with deleted := s.deleted || s.cleanupOver })
  | _ => none

/-- What may happen next. The managing thread calls `shutdown`, or `destroy`. -/
inductive Action (ι : Type)
  | reader (i : ι)
  | call (destroy : Bool) (intervalForcibly : ℤ)
  | manager (now : ℤ)

def step (s : MapedFile ι) : Action ι → Option (MapedFile ι)
  | .reader i => readerStep i s
  | .call destroy intervalForcibly =>
    if s.pc none = .idle then
      some (goto none (.readAvailable intervalForcibly) { s with destroying := destroy })
    else none
  | .manager now => managerStep now s

end Step

/-! ### What the threads contribute -/

/-- Holds the file: a reader from its increment to its decrement, the managing thread from the time
the file is not available any more. -/
def live : Pc → ℤ
  | .returns true => 1
  | .holding => 1
  | .release .decrement => 1
  | .stamp => 1
  | _ => 0

/-- Was refused, and has not taken its increment back. -/
def undone : Pc → ℤ
  | .undo => 1
  | _ => 0

def inMonitor : Pc → Bool
  | .isAvailable => true
  | .increment => true
  | .undo => true
  | .returns _ => true
  | .release .decrement => false
  | .release .enter => false
  | .release _ => true
  | _ => false

/-- Is on the way to unmap the buffer. -/
def pending : Pc → Bool
  | .release .enter => true
  | .release .isAvailable => true
  | .release .refCount => true
  | .release .cleanupOver => true
  | .release .clean => true
  | _ => false

lemma live_nonneg (pc : Pc) : 0 ≤ live pc := by
  rw [live.eq_def]
  split <;> decide

lemma undone_nonneg (pc : Pc) : 0 ≤ undone pc := by
  rw [undone.eq_def]
  split <;> decide

lemma undone_le (pc : Pc) : undone pc ≤ 1 := by
  rw [undone.eq_def]
  split <;> decide

lemma inMonitor_of_undone {pc : Pc} (h : undone pc ≠ 0) : inMonitor pc = true := by
  cases pc <;> first | rfl | exact absurd rfl h

/-- Where a thread goes on after `release`. -/
inductive Back : Option ι → Pc → Prop
  | idle (t : Option ι) : Back t .idle
  | destroyCount : Back none .destroyCount

lemma Back.away {t : Option ι} {back : Pc} (h : Back t back) :
    live back = 0 ∧ undone back = 0 ∧ inMonitor back = false := by
  cases h <;> exact ⟨rfl, rfl, rfl⟩

lemma Back.afterShutdown (destroying : Bool) :
    Back (none : Option ι) (afterShutdown destroying) := by
  cases destroying with
  | true => exact .destroyCount
  | false => exact .idle none

lemma others_of_free {s : MapedFile ι} (hfree : s.monitor = none) (m : Option (Option ι))
    (u : Option ι) (hu : s.monitor = some u) : m = some u := by
  rw [hfree] at hu
  cases hu

variable [Fintype ι]

def total (f : Pc → ℤ) (pc : Option ι → Pc) : ℤ := ∑ t, f (pc t)

lemma total_nonneg {f : Pc → ℤ} (hf : ∀ p, 0 ≤ f p) (pc : Option ι → Pc) : 0 ≤ total f pc :=
  Finset.sum_nonneg fun t _ => hf (pc t)

lemma le_total {f : Pc → ℤ} (hf : ∀ p, 0 ≤ f p) (pc : Option ι → Pc) (t : Option ι) :
    f (pc t) ≤ total f pc :=
  Finset.single_le_sum (f := fun t => f (pc t)) (fun u _ => hf (pc u)) (Finset.mem_univ t)

/-- Nobody will hold the file any more, unless the count was overwritten. -/
def Dead (s : MapedFile ι) : Prop :=
  s.available = false ∧ (s.forced = true ∨ total live s.pc = 0)

/-- What is known of a thread by the place where it is. -/
def Ok (s : MapedFile ι) (t : Option ι) : Pc → Prop
  | .idle => True
  | .isAvailable => True
  | .increment => s.unmapped = 0
  | .undo => s.unmapped = 0 ∧ Dead s
  | .returns true => s.unmapped = 0
  | .returns false => True
  | .holding => True
  | .release .decrement => True
  | .release .clean => Dead s ∧ s.unmapped = 0 ∧ s.cleanupOver = false
  | .release (.assign result) => Dead s ∧ result = true ∧ s.unmapped = 1
  | .release _ => Dead s
  | .readAvailable _ => t = none
  | .makeUnavailable => t = none ∧ s.available = true
  | .stamp => t = none ∧ s.available = false ∧ s.forced = false
  | .getRefCount _ => t = none ∧ s.available = false
  | .elapsed _ => t = none ∧ s.available = false ∧ s.forced = false
  | .readCount => t = none ∧ s.available = false ∧ s.forced = false
  | .setCount v => t = none ∧ s.available = false ∧ s.forced = false ∧ 0 ≤ v
  | .destroyCount => t = none
  | .destroyOver => t = none

structure Inv (s : MapedFile ι) : Prop where
  monitor : ∀ t, inMonitor (s.pc t) = true → s.monitor = some t
  count : s.forced = false →
    s.refCount = (if s.available then 1 else 0) + total live s.pc + total undone s.pc
  countForced : s.forced = true → s.available = false ∧ s.refCount ≤ -1000 + total undone s.pc
  ok : ∀ t, Ok s t (s.pc t)
  dead : 0 < s.unmapped → Dead s
  once : s.unmapped ≤ 1
  cleaned : s.cleanupOver = true → s.unmapped = 1
  notYet : s.unmapped = 1 → s.cleanupOver = true ∨ ∃ t, s.pc t = .release (.assign true)
  unmaps : s.forced = false → s.available = false → total live s.pc = 0 →
    s.unmapped = 1 ∨ ∃ t, pending (s.pc t) = true

lemma Inv.initial : Inv ({} : MapedFile ι) where
  monitor _ h := by cases h
  count _ := by simp [total, live, undone]
  countForced := nofun
  ok _ := trivial
  dead := nofun
  once := Nat.zero_le 1
  cleaned := nofun
  notYet := nofun
  unmaps _ := nofun

/-! ### One thread in the monitor -/

variable {s s' : MapedFile ι} {t u : Option ι} {pc' : Pc}

lemma Inv.alone (h : Inv s) (ht : inMonitor (s.pc t) = true) (hu : inMonitor (s.pc u) = true) :
    u = t :=
  Option.some.inj ((h.monitor u hu).symm.trans (h.monitor t ht))

/-- A step of the one in the monitor leaves the monitor to nobody else. -/
lemma Inv.others (h : Inv s) (ht : inMonitor (s.pc t) = true) (m : Option (Option ι))
    (u : Option ι) (hut : u ≠ t) (hu : s.monitor = some u) : m = some u :=
  absurd (Option.some.inj (hu.symm.trans (h.monitor t ht))) hut

lemma Inv.total_undone (h : Inv s) (ht : inMonitor (s.pc t) = true) :
    total undone s.pc = undone (s.pc t) := by
  refine Finset.sum_eq_single t (fun u _ hne => ?_) (by simp)
  by_contra hu
  exact hne (h.alone ht (inMonitor_of_undone hu))

lemma Inv.total_undone_le (h : Inv s) : total undone s.pc ≤ 1 := by
  by_cases hex : ∃ t, undone (s.pc t) ≠ 0
  · obtain ⟨t, ht⟩ := hex
    rw [h.total_undone (inMonitor_of_undone ht)]
    exact undone_le (s.pc t)
  · push Not at hex
    rw [total, Finset.sum_congr rfl fun t _ => hex t]
    simp

/-- Once nobody will hold the file, a thread that finds nobody else in the monitor finds the count
not positive. -/
lemma Inv.refCount_of_dead (h : Inv s) (hd : Dead s) : s.refCount ≤ total undone s.pc := by
  obtain ⟨havail, hforced | hlive⟩ := hd
  · have := (h.countForced hforced).2
    omega
  · by_cases hforced : s.forced = true
    · have := (h.countForced hforced).2
      omega
    · have := h.count (by simpa using hforced)
      rw [havail, hlive] at this
      simp only [Bool.false_eq_true, if_false] at this
      omega

/-- Conversely a count that is not positive says that nobody will hold the file. -/
lemma dead_of_counts
    (hcount : s.forced = false →
      s.refCount = (if s.available then 1 else 0) + total live s.pc + total undone s.pc)
    (hcountForced : s.forced = true → s.available = false) (hle : s.refCount ≤ 0) : Dead s := by
  by_cases hforced : s.forced = true
  · exact ⟨hcountForced hforced, Or.inl hforced⟩
  · have hcount := hcount (by simpa using hforced)
    have hlive := total_nonneg live_nonneg s.pc
    have hundone := total_nonneg undone_nonneg s.pc
    cases havail : s.available with
    | true =>
      rw [havail, if_pos rfl] at hcount
      omega
    | false =>
      rw [havail] at hcount
      simp only [Bool.false_eq_true, if_false] at hcount
      exact ⟨havail, Or.inr (by omega)⟩

lemma Inv.dead_of_refCount (h : Inv s) (hle : s.refCount ≤ 0) : Dead s :=
  dead_of_counts h.count (fun hf => (h.countForced hf).1) hle

lemma Inv.dead_of_undone (h : Inv s) (hpos : 0 < total undone s.pc) : Dead s := by
  by_contra hnot
  refine hpos.ne' (Finset.sum_eq_zero fun t _ => ?_)
  by_contra hu
  have hok := h.ok t
  cases hpc : s.pc t with
  | undo =>
    rw [hpc] at hok
    exact hnot hok.2
  | _ => exact hu (by rw [hpc]; rfl)

lemma Back.ok {back : Pc} (h : Back t back) (s : MapedFile ι) : Ok s t back := by
  cases h with
  | idle => trivial
  | destroyCount => rfl

/-! ### Holding, and unmapping -/

/-- Has held the file, and not released it. -/
def holds : Pc → Bool
  | .returns true => true
  | .holding => true
  | .release .decrement => true
  | _ => false

/-- Is in a `shutdown` that made the file unavailable, or in `release`, or holds the file. -/
def busy : Pc → Bool
  | .stamp => true
  | .release _ => true
  | pc => holds pc

structure Safe (s : MapedFile ι) : Prop where
  once : s.unmapped ≤ 1
  held : 0 < s.unmapped → s.forced = false → ∀ i, holds (s.pc (some i)) = false
  /-- no `hold` returns true any more -/
  refused : 0 < s.unmapped → ∀ i, s.pc (some i) ≠ .returns true
  finished : s.forced = false → s.available = false → (∀ t, busy (s.pc t) = false) →
    s.unmapped = 1

lemma live_of_holds {pc : Pc} (h : holds pc = true) : live pc = 1 := by
  rw [holds.eq_def] at h
  split at h
  case h_4 => cases h
  all_goals rfl

lemma live_of_not_busy {pc : Pc} (h : busy pc = false) : live pc = 0 := by
  rw [live.eq_def]
  split
  case h_5 => rfl
  all_goals cases h

lemma not_pending_of_not_busy {pc : Pc} (h : busy pc = false) : pending pc = false := by
  rw [pending.eq_def]
  split
  case h_6 => rfl
  all_goals cases h

lemma Inv.safe (h : Inv s) : Safe s where
  once := h.once
  held hpos hf i := by
    by_contra hheld
    have hlive := live_of_holds (by simpa using hheld)
    rcases (h.dead hpos).2 with hforced | hzero
    · rw [hf] at hforced
      cases hforced
    · have := le_total live_nonneg s.pc (some i)
      omega
  refused hpos i hpc := by
    have hok := h.ok (some i)
    rw [hpc] at hok
    exact hpos.ne' hok
  finished hf ha hidle := by
    have hzero : total live s.pc = 0 :=
      Finset.sum_eq_zero fun t _ => live_of_not_busy (hidle t)
    rcases h.unmaps hf ha hzero with hone | ⟨t, ht⟩
    · exact hone
    · rw [not_pending_of_not_busy (hidle t)] at ht
      cases ht

/-! ### What a step of one thread does not change for the others -/

lemma Ok.frame {pc : Pc} (h : Ok s u pc) (hdead : Dead s → Dead s')
    (hin : inMonitor pc = true → s'.unmapped = s.unmapped ∧ s'.cleanupOver = s.cleanupOver)
    (hmanager : u = none → s'.available = s.available ∧ s'.forced = s.forced) : Ok s' u pc := by
  cases pc with
  | idle | isAvailable | holding => trivial
  | increment => exact (hin rfl).1.trans h
  | undo => exact ⟨(hin rfl).1.trans h.1, hdead h.2⟩
  | returns held =>
    cases held with
    | true => exact (hin rfl).1.trans h
    | false => trivial
  | release r =>
    cases r with
    | decrement => trivial
    | enter | isAvailable | refCount | cleanupOver | exit => exact hdead h
    | clean =>
      exact ⟨hdead h.1, (hin rfl).1.trans h.2.1, (hin rfl).2.trans h.2.2⟩
    | assign result => exact ⟨hdead h.1, h.2.1, (hin rfl).1.trans h.2.2⟩
  | readAvailable _ | destroyCount | destroyOver => exact h
  | makeUnavailable => exact ⟨h.1, (hmanager h.1).1.trans h.2⟩
  | getRefCount _ => exact ⟨h.1, (hmanager h.1).1.trans h.2⟩
  | stamp | elapsed _ | readCount =>
    exact ⟨h.1, (hmanager h.1).1.trans h.2.1, (hmanager h.1).2.trans h.2.2⟩
  | setCount v =>
    exact ⟨h.1, (hmanager h.1).1.trans h.2.1, (hmanager h.1).2.trans h.2.2.1, h.2.2.2⟩

variable [DecidableEq ι]

lemma total_update (f : Pc → ℤ) (pc : Option ι → Pc) (t : Option ι) (p : Pc) :
    total f (Function.update pc t p) = total f pc - f (pc t) + f p := by
  have hcomp : (fun u => f (Function.update pc t p u)) =
      Function.update (fun u => f (pc u)) t (f p) := by
    funext u
    by_cases h : u = t
    · subst h
      simp
    · simp [h]
  have hold : ∑ u, f (pc u) = f (pc t) + ∑ u ∈ Finset.univ \ {t}, f (pc u) := by
    rw [← Finset.sum_sdiff (Finset.subset_univ {t}), Finset.sum_singleton, add_comm]
  rw [total, total, hcomp, Finset.sum_update_of_mem (Finset.mem_univ t), hold]
  ring

lemma total_same {f : Pc → ℤ} {pc : Option ι → Pc} (h : f pc' = f (pc t)) :
    total f (Function.update pc t pc') = total f pc := by
  rw [total_update, h]
  omega

lemma Inv.monitor_update (h : Inv s) (hpc : s'.pc = Function.update s.pc t pc')
    (hhere : inMonitor pc' = true → s'.monitor = some t)
    (hothers : ∀ u, u ≠ t → s.monitor = some u → s'.monitor = some u) (u : Option ι)
    (hu : inMonitor (s'.pc u) = true) : s'.monitor = some u := by
  rw [hpc] at hu
  by_cases hut : u = t
  · subst hut
    exact hhere (by simpa using hu)
  · rw [Function.update_of_ne hut] at hu
    exact hothers u hut (h.monitor u hu)

lemma Inv.ok_update (h : Inv s) (hpc : s'.pc = Function.update s.pc t pc') (hok : Ok s' t pc')
    (hdead : Dead s → Dead s')
    (hin : ∀ u, u ≠ t → inMonitor (s.pc u) = true →
      s'.unmapped = s.unmapped ∧ s'.cleanupOver = s.cleanupOver)
    (hmanager : t ≠ none → s'.available = s.available ∧ s'.forced = s.forced) (u : Option ι) :
    Ok s' u (s'.pc u) := by
  rw [hpc]
  by_cases hut : u = t
  · subst hut
    simpa using hok
  · rw [Function.update_of_ne hut]
    exact (h.ok u).frame hdead (hin u hut) fun hu => hmanager fun ht => hut (hu.trans ht.symm)

/-- The availability and the buffer are as they were. -/
structure Same (s s' : MapedFile ι) : Prop where
  available : s'.available = s.available
  forced : s'.forced = s.forced
  unmapped : s'.unmapped = s.unmapped
  cleanupOver : s'.cleanupOver = s.cleanupOver

/-- A step that changes only the count. -/
lemma Inv.of_same (h : Inv s) (hpc : s'.pc = Function.update s.pc t pc') (hsame : Same s s')
    (hhere : inMonitor pc' = true → s'.monitor = some t)
    (hothers : ∀ u, u ≠ t → s.monitor = some u → s'.monitor = some u)
    (hok : Ok s' t pc')
    (hcount : s.forced = false →
      s'.refCount = (if s.available then 1 else 0) + total live s'.pc + total undone s'.pc)
    (hcountForced : s.forced = true → s'.refCount ≤ -1000 + total undone s'.pc)
    (hdead : Dead s → Dead s') (hassign : s.pc t ≠ .release (.assign true))
    (hunmaps : s.forced = false → s.available = false → total live s'.pc = 0 →
      (total live s.pc = 0 → pending (s.pc t) = true) → s.unmapped = 1 ∨ pending pc' = true) :
    Inv s' where
  monitor := h.monitor_update hpc hhere hothers
  count hf := by
    rw [hsame.available]
    exact hcount (hsame.forced ▸ hf)
  countForced hf := by
    rw [hsame.forced] at hf
    exact ⟨hsame.available.trans (h.countForced hf).1, hcountForced hf⟩
  ok := h.ok_update hpc hok hdead (fun _ _ _ => ⟨hsame.unmapped, hsame.cleanupOver⟩)
    fun _ => ⟨hsame.available, hsame.forced⟩
  dead hpos := hdead (h.dead (hsame.unmapped ▸ hpos))
  once := hsame.unmapped.trans_le h.once
  cleaned hover := hsame.unmapped.trans (h.cleaned (hsame.cleanupOver ▸ hover))
  notYet hone := by
    rcases h.notYet (hsame.unmapped ▸ hone) with hover | ⟨u, hu⟩
    · exact Or.inl (hsame.cleanupOver.trans hover)
    · have hut : u ≠ t := by
        rintro rfl
        exact hassign hu
      exact Or.inr ⟨u, by rw [hpc, Function.update_of_ne hut, hu]⟩
  unmaps hf ha hl := by
    rw [hsame.forced] at hf
    rw [hsame.available] at ha
    rw [hsame.unmapped]
    -- A thread that was on the way to unmap the buffer still is, or it is this one.
    by_cases hother : ∃ u, u ≠ t ∧ pending (s.pc u) = true
    · obtain ⟨u, hut, hu⟩ := hother
      exact Or.inr ⟨u, by rw [hpc, Function.update_of_ne hut, hu]⟩
    · by_cases hone : s.unmapped = 1
      · exact Or.inl hone
      refine (hunmaps hf ha hl fun hlive => ?_).imp_right fun hp => ⟨t, by simpa [hpc] using hp⟩
      rcases h.unmaps hf ha hlive with hmapped | ⟨u, hu⟩
      · exact absurd hmapped hone
      · by_cases hut : u = t
        · exact hut ▸ hu
        · exact absurd ⟨u, hut, hu⟩ hother

/-- A step of a thread that does not even change the count. -/
lemma Inv.control (h : Inv s) {pc : Pc} (hfrom : s.pc t = pc)
    (hpc : s'.pc = Function.update s.pc t pc') (hsame : Same s s')
    (hrefCount : s'.refCount = s.refCount)
    (hhere : inMonitor pc' = true → s'.monitor = some t)
    (hothers : ∀ u, u ≠ t → s.monitor = some u → s'.monitor = some u)
    (hok : (Dead s → Dead s') → Ok s' t pc') (hlive : live pc' = live pc)
    (hundone : undone pc' = undone pc) (hassign : pc ≠ .release (.assign true))
    (hunmaps : pending pc = true → s.unmapped = 1 ∨ pending pc' = true) : Inv s' := by
  subst hfrom
  have hlives : total live s'.pc = total live s.pc := by rw [hpc, total_same hlive]
  have hundones : total undone s'.pc = total undone s.pc := by rw [hpc, total_same hundone]
  have hdead (hd : Dead s) : Dead s' :=
    ⟨hsame.available.trans hd.1, hd.2.imp hsame.forced.trans hlives.trans⟩
  refine h.of_same hpc hsame hhere hothers (hok hdead) (fun hf => ?_) (fun hf => ?_) hdead hassign
    fun _ _ hl hp => hunmaps (hp (hlives ▸ hl))
  · rw [hrefCount, hlives, hundones]
    exact h.count hf
  · rw [hrefCount, hundones]
    exact (h.countForced hf).2

/-! ### Release -/

lemma Inv.decrement (h : Inv s) {back : Pc} (hback : Back t back)
    (hpc : s.pc t = .release .decrement) (hs : releaseStep t back s .decrement = some s') :
    Inv s' := by
  simp only [releaseStep, Option.some.injEq] at hs
  subst hs
  obtain ⟨hlive, hundone, hout⟩ := hback.away
  generalize hgoto : (if 0 < s.refCount - 1 then back else Pc.release .enter) = pc'
  have hzero : live pc' = 0 ∧ undone pc' = 0 := by
    rw [← hgoto]
    split
    · exact ⟨hlive, hundone⟩
    · exact ⟨rfl, rfl⟩
  have hlives : total live (Function.update s.pc t pc') = total live s.pc - 1 := by
    rw [total_update, hpc, hzero.1]
    simp [live]
  have hundones : total undone (Function.update s.pc t pc') = total undone s.pc := by
    rw [total_update, hpc, hzero.2]
    simp [undone]
  have hone : 1 ≤ total live s.pc := by
    have := le_total live_nonneg s.pc t
    rw [hpc] at this
    exact this
  have hcount : s.forced = false → s.refCount - 1 =
      (if s.available then 1 else 0) + total live (Function.update s.pc t pc') +
        total undone (Function.update s.pc t pc') := by
    intro hf
    rw [hlives, hundones, h.count hf]
    omega
  refine h.of_same rfl ⟨rfl, rfl, rfl, rfl⟩ (fun hin => ?_) (fun _ _ hu => hu) ?_ hcount
    (fun hf => ?_) (fun hd => ?_) (by simp [hpc]) fun hf ha hl _ => ?_
  · exfalso
    rw [← hgoto] at hin
    split at hin
    · simp [hout] at hin
    · cases hin
  · rw [← hgoto]
    split
    case isTrue => exact hback.ok _
    case isFalse hle =>
      rw [← hgoto] at hcount
      rw [if_neg hle] at hcount
      exact dead_of_counts hcount (fun hf => (h.countForced hf).1) (not_lt.mp hle)
  · have := (h.countForced hf).2
    simp only [goto]
    omega
  · exact ⟨hd.1, hd.2.imp_right fun hz => by omega⟩
  · -- The last one that held the file: the count is zero, as nobody has anything to take back.
    right
    have hundone0 : total undone s.pc = 0 := by
      by_contra hne
      have hpos := lt_of_le_of_ne (total_nonneg undone_nonneg s.pc) (Ne.symm hne)
      rcases (h.dead_of_undone hpos).2 with hforced | hz
      · rw [hf] at hforced
        cases hforced
      · omega
    have hvalue := hcount hf
    simp only [goto] at hl
    rw [hl, hundones, hundone0, ha] at hvalue
    simp only [Bool.false_eq_true, if_false] at hvalue
    rw [← hgoto, if_neg (by omega)]
    rfl

/-- A step inside the monitor after which the buffer is unmapped. -/
lemma Inv.of_unmapped (h : Inv s) (hd : Dead s) (hin : inMonitor (s.pc t) = true)
    (hpc : s'.pc = Function.update s.pc t pc') (hmonitor : s'.monitor = s.monitor)
    (hrefCount : s'.refCount = s.refCount) (havailable : s'.available = s.available)
    (hforced : s'.forced = s.forced) (hlive : live pc' = live (s.pc t))
    (hundone : undone pc' = undone (s.pc t)) (hone : s'.unmapped = 1)
    (hok : Dead s' → Ok s' t pc')
    (hnotYet : s'.cleanupOver = true ∨ pc' = .release (.assign true)) : Inv s' := by
  have hlives : total live s'.pc = total live s.pc := by rw [hpc, total_same hlive]
  have hundones : total undone s'.pc = total undone s.pc := by rw [hpc, total_same hundone]
  have hdead : Dead s' := ⟨havailable.trans hd.1, hd.2.imp hforced.trans hlives.trans⟩
  exact
    { monitor := h.monitor_update hpc (fun _ => hmonitor.trans (h.monitor t hin))
        fun _ _ hu => hmonitor.trans hu
      count := fun hf => by
        rw [hrefCount, havailable, hlives, hundones]
        exact h.count (hforced ▸ hf)
      countForced := fun hf => by
        rw [hrefCount, havailable, hundones]
        exact h.countForced (hforced ▸ hf)
      ok := h.ok_update hpc (hok hdead) (fun _ => hdead)
        (fun u hut hu => absurd (h.alone hin hu) hut) fun _ => ⟨havailable, hforced⟩
      dead := fun _ => hdead
      once := hone.le
      cleaned := fun _ => hone
      notYet := fun _ => hnotYet.imp_right fun hassign => ⟨t, by simp [hpc, hassign]⟩
      unmaps := fun _ _ _ => Or.inl hone }

lemma Inv.clean (h : Inv s) {back : Pc} (hpc : s.pc t = .release .clean)
    (hs : releaseStep t back s .clean = some s') : Inv s' := by
  simp only [releaseStep, Option.some.injEq] at hs
  subst hs
  have hok := h.ok t
  rw [hpc] at hok
  obtain ⟨hd, hzero, -⟩ := hok
  have hone : s.unmapped + 1 = 1 := by omega
  exact h.of_unmapped hd (by rw [hpc]; rfl) rfl rfl rfl rfl rfl (by rw [hpc]; rfl)
    (by rw [hpc]; rfl) hone (fun hdead => ⟨hdead, rfl, hone⟩) (Or.inr rfl)

lemma Inv.assign (h : Inv s) {back : Pc} {result : Bool} (hpc : s.pc t = .release (.assign result))
    (hs : releaseStep t back s (.assign result) = some s') : Inv s' := by
  simp only [releaseStep, Option.some.injEq] at hs
  subst hs
  have hok := h.ok t
  rw [hpc] at hok
  obtain ⟨hd, rfl, hone⟩ := hok
  exact h.of_unmapped hd (by rw [hpc]; rfl) rfl rfl rfl rfl rfl (by rw [hpc]; rfl)
    (by rw [hpc]; rfl) hone id (Or.inl rfl)

/-- **Release.** Every step of `release`, by whatever thread, keeps the invariant. -/
lemma Inv.release (h : Inv s) {back : Pc} (hback : Back t back) {r : Release}
    (hpc : s.pc t = .release r) (hs : releaseStep t back s r = some s') : Inv s' := by
  have hok := h.ok t
  rw [hpc] at hok
  cases r with
  | decrement => exact h.decrement hback hpc hs
  | clean => exact h.clean hpc hs
  | assign result => exact h.assign hpc hs
  | enter =>
    simp only [releaseStep] at hs
    split at hs
    case isFalse => cases hs
    case isTrue hfree =>
      cases hs
      exact h.control hpc rfl ⟨rfl, rfl, rfl, rfl⟩ rfl (fun _ => rfl)
        (fun u _ => others_of_free hfree _ u) (fun hd => hd hok) rfl
        rfl nofun fun _ => Or.inr rfl
  | isAvailable =>
    have hin : inMonitor (s.pc t) = true := by rw [hpc]; rfl
    simp only [releaseStep, hok.1, Bool.false_eq_true, if_false, Option.some.injEq] at hs
    subst hs
    exact h.control hpc rfl ⟨rfl, rfl, rfl, rfl⟩ rfl (fun _ => h.monitor t hin) (fun _ _ hu => hu)
      (fun hd => hd hok) rfl rfl nofun fun _ => Or.inr rfl
  | refCount =>
    have hin : inMonitor (s.pc t) = true := by rw [hpc]; rfl
    have hle : s.refCount ≤ 0 := by
      have := h.refCount_of_dead hok
      rwa [h.total_undone hin, hpc] at this
    simp only [releaseStep, if_pos hle, Option.some.injEq] at hs
    subst hs
    exact h.control hpc rfl ⟨rfl, rfl, rfl, rfl⟩ rfl (fun _ => h.monitor t hin) (fun _ _ hu => hu)
      (fun hd => hd hok) rfl rfl nofun fun _ => Or.inr rfl
  | cleanupOver =>
    have hin : inMonitor (s.pc t) = true := by rw [hpc]; rfl
    simp only [releaseStep, Option.some.injEq] at hs
    subst hs
    cases hover : s.cleanupOver with
    | true =>
      -- The buffer is unmapped already.
      exact h.control hpc rfl ⟨rfl, rfl, rfl, rfl⟩ rfl (fun _ => h.monitor t hin) (fun _ _ hu => hu)
        (fun hd => ⟨hd hok, rfl, h.cleaned hover⟩) rfl rfl nofun fun _ => Or.inl (h.cleaned hover)
    | false =>
      have hzero : s.unmapped = 0 := by
        by_contra hne
        rcases h.notYet (by have := h.once; omega) with hover' | ⟨u, hu⟩
        · rw [hover] at hover'
          cases hover'
        · have hut := h.alone hin (u := u) (by rw [hu]; rfl)
          rw [hut, hpc] at hu
          cases hu
      exact h.control hpc rfl ⟨rfl, rfl, rfl, rfl⟩ rfl (fun _ => h.monitor t hin) (fun _ _ hu => hu)
        (fun hd => ⟨hd hok, hzero, hover⟩) rfl rfl nofun fun _ => Or.inr rfl
  | exit =>
    have hin : inMonitor (s.pc t) = true := by rw [hpc]; rfl
    obtain ⟨hlive, hundone, hout⟩ := hback.away
    simp only [releaseStep, Option.some.injEq] at hs
    subst hs
    exact h.control hpc rfl ⟨rfl, rfl, rfl, rfl⟩ rfl (fun hback => by simp [hout] at hback)
      (h.others hin _) (fun _ => hback.ok _) hlive hundone nofun nofun

/-! ### Readers -/

lemma Inv.increment (h : Inv s) {i : ι} (hpc : s.pc (some i) = .increment)
    (hs : readerStep i s = some s') : Inv s' := by
  simp only [readerStep, hpc, Option.some.injEq] at hs
  have hin : inMonitor (s.pc (some i)) = true := by rw [hpc]; rfl
  have hok := h.ok (some i)
  rw [hpc] at hok
  have hundone : total undone s.pc = 0 := by rw [h.total_undone hin, hpc]; rfl
  by_cases hpos : 0 < s.refCount
  · -- The count says that the file is held, so somebody will still hold it.
    rw [if_pos hpos] at hs
    subst hs
    have halive : ¬ Dead s := fun hd => by
      have := h.refCount_of_dead hd
      omega
    have hlives : total live (Function.update s.pc (some i) (.returns true)) =
        total live s.pc + 1 := by
      rw [total_update, hpc]
      simp [live]
    have hundones : total undone (Function.update s.pc (some i) (.returns true)) =
        total undone s.pc := total_same (by rw [hpc]; rfl)
    refine h.of_same rfl ⟨rfl, rfl, rfl, rfl⟩ (fun _ => h.monitor _ hin) (fun _ _ hu => hu) hok
      (fun hf => ?_) (fun hf => ?_) (fun hd => absurd hd halive) (by simp [hpc]) fun _ ha hl _ => ?_
    · simp only [goto, hlives, hundones, h.count hf]
      omega
    · have := (h.countForced hf).2
      omega
    · have := total_nonneg live_nonneg s.pc
      simp only [goto] at hl
      omega
  · rw [if_neg hpos] at hs
    subst hs
    have hd : Dead s := h.dead_of_refCount (by omega)
    have hlives : total live (Function.update s.pc (some i) .undo) = total live s.pc :=
      total_same (by rw [hpc]; rfl)
    have hundones : total undone (Function.update s.pc (some i) .undo) =
        total undone s.pc + 1 := by
      rw [total_update, hpc]
      simp [undone]
    have hdead : Dead (goto (some i) .undo { s with refCount := s.refCount + 1 }) :=
      ⟨hd.1, hd.2.imp_right fun hz => hlives.trans hz⟩
    refine h.of_same rfl ⟨rfl, rfl, rfl, rfl⟩ (fun _ => h.monitor _ hin) (fun _ _ hu => hu)
      ⟨hok, hdead⟩ (fun hf => ?_) (fun hf => ?_) (fun _ => hdead) (by simp [hpc])
      fun _ _ hl hp => ?_
    · simp only [goto, hlives, hundones, h.count hf]
      omega
    · have := (h.countForced hf).2
      simp only [goto, hundones]
      omega
    · have := hp (hlives.symm.trans hl)
      rw [hpc] at this
      cases this

lemma Inv.undo (h : Inv s) {i : ι} (hpc : s.pc (some i) = .undo)
    (hs : readerStep i s = some s') : Inv s' := by
  simp only [readerStep, hpc, Option.some.injEq] at hs
  subst hs
  have hin : inMonitor (s.pc (some i)) = true := by rw [hpc]; rfl
  have hok := h.ok (some i)
  rw [hpc] at hok
  have hlives : total live (Function.update s.pc (some i) (.returns false)) = total live s.pc :=
    total_same (by rw [hpc]; rfl)
  have hundones : total undone (Function.update s.pc (some i) (.returns false)) =
      total undone s.pc - 1 := by
    rw [total_update, hpc]
    simp [undone]
  refine h.of_same rfl ⟨rfl, rfl, rfl, rfl⟩ (fun _ => h.monitor _ hin) (fun _ _ hu => hu) trivial
    (fun hf => ?_) (fun hf => ?_)
    (fun hd => ⟨hd.1, hd.2.imp_right fun hz => hlives.trans hz⟩) (by simp [hpc])
    fun _ _ hl hp => ?_
  · simp only [goto, hlives, hundones, h.count hf]
    omega
  · have := (h.countForced hf).2
    simp only [goto, hundones]
    omega
  · have := hp (hlives.symm.trans hl)
    rw [hpc] at this
    cases this

/-- A step of a reader. -/
lemma Inv.reader (h : Inv s) {i : ι} (hs : readerStep i s = some s') : Inv s' := by
  cases hpc : s.pc (some i) with
  | increment => exact h.increment hpc hs
  | undo => exact h.undo hpc hs
  | release r =>
    simp only [readerStep, hpc] at hs
    exact h.release (.idle _) hpc hs
  | idle =>
    simp only [readerStep, hpc] at hs
    split at hs
    case isFalse => cases hs
    case isTrue hfree =>
      cases hs
      exact h.control hpc rfl ⟨rfl, rfl, rfl, rfl⟩ rfl (fun _ => rfl)
        (fun u _ => others_of_free hfree _ u) (fun _ => trivial) rfl
        rfl nofun nofun
  | isAvailable =>
    have hin : inMonitor (s.pc (some i)) = true := by rw [hpc]; rfl
    simp only [readerStep, hpc, Option.some.injEq] at hs
    subst hs
    cases havail : s.available with
    | true =>
      have hzero : s.unmapped = 0 := by
        by_contra hne
        have := (h.dead (Nat.pos_of_ne_zero hne)).1
        rw [havail] at this
        cases this
      exact h.control hpc rfl ⟨rfl, rfl, rfl, rfl⟩ rfl (fun _ => h.monitor _ hin) (fun _ _ hu => hu)
        (fun _ => hzero) rfl rfl nofun nofun
    | false =>
      exact h.control hpc rfl ⟨rfl, rfl, rfl, rfl⟩ rfl (fun _ => h.monitor _ hin) (fun _ _ hu => hu)
        (fun _ => trivial) rfl rfl nofun nofun
  | returns held =>
    have hin : inMonitor (s.pc (some i)) = true := by rw [hpc]; rfl
    simp only [readerStep, hpc, Option.some.injEq] at hs
    subst hs
    cases held with
    | true =>
      exact h.control hpc rfl ⟨rfl, rfl, rfl, rfl⟩ rfl nofun (h.others hin _)
        (fun _ => trivial) rfl rfl nofun nofun
    | false =>
      exact h.control hpc rfl ⟨rfl, rfl, rfl, rfl⟩ rfl nofun (h.others hin _)
        (fun _ => trivial) rfl rfl nofun nofun
  | holding =>
    simp only [readerStep, hpc, Option.some.injEq] at hs
    subst hs
    exact h.control hpc rfl ⟨rfl, rfl, rfl, rfl⟩ rfl nofun (fun _ _ hu => hu)
      (fun _ => trivial) rfl rfl nofun nofun
  | _ =>
    simp only [readerStep, hpc] at hs
    cases hs

/-! ### The managing thread -/

lemma Inv.makeUnavailable (h : Inv s) (now : ℤ) (hpc : s.pc none = .makeUnavailable)
    (hs : managerStep now s = some s') : Inv s' := by
  simp only [managerStep, hpc, Option.some.injEq] at hs
  subst hs
  have hok := h.ok none
  rw [hpc] at hok
  have havail : s.available = true := hok.2
  have halive : ¬ Dead s := fun hd => by
    have := havail.symm.trans hd.1
    cases this
  have hzero : s.unmapped = 0 := by
    by_contra hne
    exact halive (h.dead (Nat.pos_of_ne_zero hne))
  have hlives : total live (Function.update s.pc none .stamp) = total live s.pc + 1 := by
    rw [total_update, hpc]
    simp [live]
  have hundones : total undone (Function.update s.pc none .stamp) = total undone s.pc :=
    total_same (by rw [hpc]; rfl)
  have hforced : s.forced = false := by
    by_contra hf
    have := havail.symm.trans (h.countForced (by simpa using hf)).1
    cases this
  exact
    { monitor := h.monitor_update rfl nofun fun _ _ hu => hu
      count := fun hf => by
        have := h.count hf
        rw [havail, if_pos rfl] at this
        simp only [goto, hlives, hundones, this, Bool.false_eq_true, if_false]
        omega
      countForced := fun hf => by
        have := hforced.symm.trans hf
        cases this
      ok := h.ok_update rfl ⟨rfl, rfl, hforced⟩ (fun hd => absurd hd halive)
        (fun _ _ _ => ⟨rfl, rfl⟩) fun hne => absurd rfl hne
      dead := fun hpos => absurd hzero hpos.ne'
      once := h.once
      cleaned := h.cleaned
      notYet := fun hone => absurd (hzero.symm.trans hone) (by decide)
      unmaps := fun _ _ hl => by
        have := total_nonneg live_nonneg s.pc
        simp only [goto, hlives] at hl
        omega }

/-- A forced shutdown. -/
lemma Inv.setCount (h : Inv s) (now : ℤ) {refCount : ℤ} (hpc : s.pc none = .setCount refCount)
    (hs : managerStep now s = some s') : Inv s' := by
  simp only [managerStep, hpc, Option.some.injEq] at hs
  subst hs
  have hok := h.ok none
  rw [hpc] at hok
  obtain ⟨-, havail, -, hnonneg⟩ := hok
  have hdead : Dead (goto none (.release .decrement)
      { s with refCount := -1000 - refCount, forced := true }) := ⟨havail, Or.inl rfl⟩
  exact
    { monitor := h.monitor_update rfl nofun fun _ _ hu => hu
      count := nofun
      countForced := fun _ => by
        have := total_nonneg undone_nonneg (Function.update s.pc none (.release .decrement))
        refine ⟨havail, ?_⟩
        simp only [goto]
        omega
      ok := h.ok_update rfl trivial (fun _ => hdead) (fun _ _ _ => ⟨rfl, rfl⟩)
        fun hne => absurd rfl hne
      dead := fun _ => hdead
      once := h.once
      cleaned := h.cleaned
      notYet := fun hone => by
        refine (h.notYet hone).imp_right fun hex => ?_
        obtain ⟨u, hu⟩ := hex
        have hne : u ≠ none := by
          rintro rfl
          rw [hpc] at hu
          cases hu
        exact ⟨u, by simp [goto, Function.update_of_ne hne, hu]⟩
      unmaps := nofun }

/-- A step outside the monitor that does not even change the count. -/
lemma Inv.outside (h : Inv s) {pc : Pc} (hfrom : s.pc t = pc)
    (hpc : s'.pc = Function.update s.pc t pc') (hsame : Same s s')
    (hrefCount : s'.refCount = s.refCount) (hmonitor : s'.monitor = s.monitor)
    (hout : inMonitor pc' = false) (hok : Ok s' t pc') (hlive : live pc' = live pc)
    (hundone : undone pc' = undone pc) (hassign : pc ≠ .release (.assign true))
    (hpending : pending pc = false) : Inv s' :=
  h.control hfrom hpc hsame hrefCount (fun hin => by rw [hout] at hin; cases hin)
    (fun _ _ hu => hmonitor.trans hu) (fun _ => hok) hlive hundone hassign
    fun hp => by rw [hpending] at hp; cases hp

/-- A step of the managing thread. -/
lemma Inv.manager (h : Inv s) {now : ℤ} (hs : managerStep now s = some s') : Inv s' := by
  have hok := h.ok none
  cases hpc : s.pc none with
  | makeUnavailable => exact h.makeUnavailable now hpc hs
  | setCount refCount => exact h.setCount now hpc hs
  | release r =>
    simp only [managerStep, hpc] at hs
    exact h.release (.afterShutdown _) hpc hs
  | readAvailable interval =>
    simp only [managerStep, hpc, Option.some.injEq] at hs
    subst hs
    cases havail : s.available with
    | true =>
      exact h.outside hpc rfl ⟨rfl, rfl, rfl, rfl⟩ rfl rfl rfl ⟨rfl, havail⟩ rfl rfl nofun rfl
    | false =>
      exact h.outside hpc rfl ⟨rfl, rfl, rfl, rfl⟩ rfl rfl rfl ⟨rfl, havail⟩ rfl rfl nofun rfl
  | stamp =>
    simp only [managerStep, hpc, Option.some.injEq] at hs
    subst hs
    exact h.outside hpc rfl ⟨rfl, rfl, rfl, rfl⟩ rfl rfl rfl trivial rfl rfl nofun rfl
  | getRefCount interval =>
    rw [hpc] at hok
    simp only [managerStep, hpc, Option.some.injEq] at hs
    subst hs
    by_cases hpos : 0 < s.refCount
    · -- After a forced shutdown the count is far below zero, so it happens only once.
      have hforced : s.forced = false := by
        by_contra hf
        have := (h.countForced (by simpa using hf)).2
        have := h.total_undone_le
        omega
      rw [if_pos hpos]
      exact h.outside hpc rfl ⟨rfl, rfl, rfl, rfl⟩ rfl rfl rfl ⟨rfl, hok.2, hforced⟩ rfl rfl nofun
        rfl
    · obtain ⟨hlive, hundone, hout⟩ := (Back.afterShutdown (ι := ι) s.destroying).away
      rw [if_neg hpos]
      exact h.outside hpc rfl ⟨rfl, rfl, rfl, rfl⟩ rfl rfl hout ((Back.afterShutdown _).ok _)
        hlive hundone nofun rfl
  | elapsed interval =>
    rw [hpc] at hok
    simp only [managerStep, hpc, Option.some.injEq] at hs
    subst hs
    by_cases hover : interval ≤ now - s.firstShutdownTimestamp
    · rw [if_pos hover]
      exact h.outside hpc rfl ⟨rfl, rfl, rfl, rfl⟩ rfl rfl rfl hok rfl rfl nofun rfl
    · obtain ⟨hlive, hundone, hout⟩ := (Back.afterShutdown (ι := ι) s.destroying).away
      rw [if_neg hover]
      exact h.outside hpc rfl ⟨rfl, rfl, rfl, rfl⟩ rfl rfl hout ((Back.afterShutdown _).ok _)
        hlive hundone nofun rfl
  | readCount =>
    rw [hpc] at hok
    simp only [managerStep, hpc, Option.some.injEq] at hs
    subst hs
    have hnonneg : 0 ≤ s.refCount := by
      have hcount := h.count hok.2.2
      have hlive := total_nonneg live_nonneg s.pc
      have hundone := total_nonneg undone_nonneg s.pc
      rw [hok.2.1] at hcount
      simp only [Bool.false_eq_true, if_false] at hcount
      omega
    exact h.outside hpc rfl ⟨rfl, rfl, rfl, rfl⟩ rfl rfl rfl ⟨rfl, hok.2.1, hok.2.2, hnonneg⟩ rfl
      rfl nofun rfl
  | destroyCount =>
    simp only [managerStep, hpc, Option.some.injEq] at hs
    subst hs
    by_cases hle : s.refCount ≤ 0
    · rw [if_pos hle]
      exact h.outside hpc rfl ⟨rfl, rfl, rfl, rfl⟩ rfl rfl rfl rfl rfl rfl nofun rfl
    · rw [if_neg hle]
      exact h.outside hpc rfl ⟨rfl, rfl, rfl, rfl⟩ rfl rfl rfl trivial rfl rfl nofun rfl
  | destroyOver =>
    simp only [managerStep, hpc, Option.some.injEq] at hs
    subst hs
    exact h.outside hpc rfl ⟨rfl, rfl, rfl, rfl⟩ rfl rfl rfl trivial rfl rfl nofun rfl
  | _ =>
    simp only [managerStep, hpc] at hs
    cases hs

lemma Inv.of_step (h : Inv s) {a : Action ι} (hs : step s a = some s') : Inv s' := by
  cases a with
  | reader i => exact h.reader hs
  | manager now => exact h.manager hs
  | call destroy interval =>
    simp only [step] at hs
    split at hs
    case isFalse => cases hs
    case isTrue hidle =>
      cases hs
      exact h.outside hidle rfl ⟨rfl, rfl, rfl, rfl⟩ rfl rfl rfl rfl rfl rfl nofun rfl

lemma Inv.reachable {as : List (Action ι)} (hr : run step {} as = some s) : Inv s :=
  run_inductive (fun _ _ _ h hs => h.of_step hs) .initial hr

/-- **References to a mapped file.** However the steps of the readers and of the managing thread
interleave, the buffer is unmapped at most once. Unless the count was overwritten by a shutdown
after the forcible interval, nobody holds the file when it is unmapped, and it is unmapped when it
is not available and nobody holds it or is about to release it; and no `hold` succeeds later. -/
theorem safe_of_run {as : List (Action ι)} (hr : run step {} as = some s) : Safe s :=
  (Inv.reachable hr).safe

/-- The first reader holds the file, the managing thread shuts it down, the second is refused. -/
def lateRelease : List (Action Bool) :=
  List.replicate 4 (.reader false) ++ .call true 1000 :: List.replicate 5 (.manager 0) ++
    List.replicate 3 (.reader true) ++ List.replicate 9 (.reader false)

theorem safe_lateRelease : ∃ s, run step {} lateRelease = some s ∧ s.unmapped = 1 ∧ Safe s := by
  have hrun : (run step {} lateRelease).map (fun s => s.unmapped) = some 1 := by decide
  obtain ⟨s, hs, hone⟩ := Option.map_eq_some_iff.mp hrun
  exact ⟨s, hs, hone, safe_of_run hs⟩

end CloudMQ.ReferenceCount
