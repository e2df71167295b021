import CloudMQ.ScheduleMessage

/-!
No delayed message is skipped, as long as the store is started with a queue that reaches up to the
offset it goes on from.

A start takes the offset from the file as it is. When the queue that was recovered ends before it,
the entries that are put next get numbers below the offset, and no task ever reads them. A message
whose put throws is dropped as well.
-/

namespace CloudMQ.DelayedDelivery

open CloudMQ.Utf8 CloudMQ.Strings CloudMQ.Message CloudMQ.CommitLog CloudMQ.Segment CloudMQ.Chain
open CloudMQ.Units CloudMQ.ConsumeQueues CloudMQ.QueueEntries CloudMQ.ScheduleMessage CloudMQ.Runs

/-! ### What is promised -/

/-- The message was put, could not be found, or could not be made. -/
def isDone : Outcome → Bool
  | .reput | .notFound | .timeupThrew => true
  | _ => false

/-- Every entry below the offset of the level was brought to an end, or was passed below the
smallest offset of the queue. -/
def Delivered (s : DelayLevel) : Prop :=
  ∀ offset ∈ s.offsetTable, ∀ i < offset, ∀ u, entryAt s.cq i = some u →
    i ∈ s.passed ∨ ∃ o, isDone o ∧ (i, u, o) ∈ s.handled

/-- The messages are put in the order of the queue; one that was refused is put again. -/
def InOrder (reputs : List (ℕ × Outcome)) : Prop :=
  reputs.Pairwise fun a b => a.1 < b.1 ∨ a.1 = b.1 ∧ a.2 = .refused

/-- The recovered queue: entries may be missing at its ends. -/
structure Recovered (cq cq' : ConsumeQueue) : Prop where
  whole : WholeQueue cq'
  old : ∀ i u, entryAt cq' i = some u → entryAt cq i = some u

/-- A store is started with what recovery makes of the queue. -/
def Legal (s : DelayLevel) : Action → Prop
  | .restart recovered => Recovered s.cq recovered
  | _ => True

/-- The put of the next entry of the buffer throws. -/
def putThrows (delay : Int64) (p : Pass) : Task → Bool
  | .executing _ _ (u :: _) => outcome delay p u == .putThrew
  | _ => false

/-- The recovered queue reaches up to the offset in the file, and no put throws. -/
def Safe (delay : Int64) (s : DelayLevel) : Action → Prop
  | .restart recovered => ∀ offset ∈ s.delayOffset, offset ≤ recovered.getMaxOffsetInQuque
  | .pass p => putThrows delay p s.task = false
  | _ => True

instance (delay : Int64) (s : DelayLevel) : ∀ a, Decidable (Safe delay s a)
  | .restart _ => inferInstanceAs (Decidable (∀ offset ∈ s.delayOffset, _))
  | .pass _ => inferInstanceAs (Decidable (_ = _))
  | .append _ _ _ _ => inferInstanceAs (Decidable True)
  | .deleteExpiredFile _ _ => inferInstanceAs (Decidable True)
  | .timeup => inferInstanceAs (Decidable True)
  | .persist => inferInstanceAs (Decidable True)

/-! ### The order of the puts -/

section Order

/-- The number the chain of tasks stands at. -/
def next : Task → ℕ
  | .scheduled offset => offset
  | .missing offset => offset
  | .executing offset i _ => offset + i

/-- The puts so far lie before the number the chain stands at; only a refused one may lie at it. -/
structure Ordered (s : DelayLevel) : Prop where
  order : InOrder s.reputs
  before : ∀ r ∈ s.reputs, r.1 < next s.task ∨ r.1 = next s.task ∧ r.2 = .refused

lemma Ordered.of_le {s s' : DelayLevel} (h : Ordered s) (hr : s'.reputs = s.reputs)
    (hle : next s.task ≤ next s'.task) : Ordered s' := by
  refine ⟨hr ▸ h.order, fun r hmem => ?_⟩
  rw [hr] at hmem
  rcases h.before r hmem with hlt | ⟨heq, href⟩
  · exact .inl (by omega)
  · rcases Nat.eq_or_lt_of_le hle with h' | h'
    · exact .inr ⟨by omega, href⟩
    · exact .inl (by omega)

/-- A put at the number the chain stands at. -/
lemma Ordered.snoc {s : DelayLevel} (h : Ordered s) (o : Outcome) :
    InOrder (s.reputs ++ [(next s.task, o)]) :=
  List.pairwise_append.mpr ⟨h.order, List.pairwise_singleton _ _, fun a ha b hb => by
    rw [List.mem_singleton.mp hb]
    exact h.before a ha⟩

lemma refused_of_put {o : Outcome} (hp : o.isPut) (hg : ¬ o.goesOn) : o = .refused := by
  cases o with
  | refused => rfl
  | notDue => exact absurd hp (by decide)
  | notFound => exact absurd hp (by decide)
  | timeupThrew => exact absurd hp (by decide)
  | putThrew => exact absurd rfl hg
  | reput => exact absurd rfl hg

lemma Ordered.passEntry {s : DelayLevel} (h : Ordered s) {delay : Int64} {p : Pass}
    {offset i : ℕ} {u : CQUnit} {rest : List CQUnit}
    (ht : s.task = .executing offset i (u :: rest)) :
    Ordered (s.passEntry delay p offset i u rest) := by
  have hnext : next s.task = offset + i := by rw [ht]; rfl
  have hb := h.before
  have hs := h.snoc (outcome delay p u)
  rw [hnext] at hb hs
  unfold DelayLevel.passEntry DelayLevel.updateOffset
  generalize hout : outcome delay p u = o at hs
  simp only
  by_cases hp : o.isPut <;> by_cases hg : o.goesOn <;> simp only [hp, hg, if_true]
  · refine ⟨hs, fun r hr => .inl ?_⟩
    change r.1 < offset + (i + 1)
    rcases List.mem_append.mp hr with hr | hr
    · have := hb r hr
      omega
    · rw [List.mem_singleton.mp hr]
      exact Nat.lt_succ_self _
  · refine ⟨hs, fun r hr => ?_⟩
    change r.1 < offset + i ∨ r.1 = offset + i ∧ r.2 = .refused
    rcases List.mem_append.mp hr with hr | hr
    · exact hb r hr
    · rw [List.mem_singleton.mp hr]
      exact .inr ⟨rfl, refused_of_put hp hg⟩
  · refine h.of_le rfl ?_
    rw [hnext]
    change offset + i ≤ offset + (i + 1)
    omega
  · refine h.of_le rfl ?_
    rw [hnext]
    exact le_rfl

/-- **The order of the puts**, step by step. -/
lemma Ordered.step {delay : Int64} {s s' : DelayLevel} {a : Action} (h : Ordered s)
    (hs : ScheduleMessage.step delay s a = some s') : Ordered s' := by
  cases a with
  | append writeable created u cqOffset =>
    obtain rfl := Option.some.inj hs
    exact h.of_le rfl le_rfl
  | deleteExpiredFile offset destroys =>
    obtain rfl := Option.some.inj hs
    exact h.of_le rfl le_rfl
  | timeup =>
    simp only [ScheduleMessage.step] at hs
    split at hs
    · next offset ht =>
      have hnext : next s.task = offset := by rw [ht]; rfl
      split at hs
      · obtain rfl := Option.some.inj hs
        exact h.of_le rfl (by rw [hnext]; exact le_rfl)
      · obtain rfl := Option.some.inj hs
        exact h.of_le rfl (by rw [hnext]; exact le_rfl)
    · next offset ht =>
      have hnext : next s.task = offset := by rw [ht]; rfl
      obtain rfl := Option.some.inj hs
      unfold DelayLevel.correctOffset
      simp only
      split
      · next hlt => exact h.of_le rfl (by rw [hnext]; exact hlt.le)
      · exact h.of_le rfl (by rw [hnext]; exact le_rfl)
    · exact absurd hs (by simp)
  | pass p =>
    simp only [ScheduleMessage.step] at hs
    split at hs
    · next offset i u rest ht =>
      obtain rfl := Option.some.inj hs
      exact h.passEntry ht
    · next offset i ht =>
      obtain rfl := Option.some.inj hs
      exact h.of_le rfl (by rw [ht]; exact le_rfl)
    · exact absurd hs (by simp)
  | persist =>
    obtain rfl := Option.some.inj hs
    exact h.of_le rfl le_rfl
  | restart recovered =>
    obtain rfl := Option.some.inj hs
    exact ⟨List.Pairwise.nil, fun r hr => absurd hr (by simp [DelayLevel.restart])⟩

end Order

/-! ### What the tasks went over -/

section Covered

/-- The tasks went over every number below the given one. -/
def Covered (s : DelayLevel) (n : ℕ) : Prop :=
  ∀ i < n, i ∈ s.passed ∨ ∃ u o, (i, u, o) ∈ s.handled

lemma Covered.of_le {s : DelayLevel} {m n : ℕ} (h : Covered s n) (hle : m ≤ n) : Covered s m :=
  fun i hi => h i (lt_of_lt_of_le hi hle)

/-- What was gone over stays so. -/
lemma Covered.mono {s s' : DelayLevel} {n : ℕ} (h : Covered s n) (hp : s.passed ⊆ s'.passed)
    (hh : s.handled ⊆ s'.handled) : Covered s' n := fun i hi =>
  (h i hi).imp (fun h => hp h) fun ⟨u, o, h⟩ => ⟨u, o, hh h⟩

/-- The entries that the buffer of the task holds. -/
def buffer : Task → List CQUnit
  | .executing _ _ rest => rest
  | _ => []

structure Inv (s : DelayLevel) : Prop where
  whole : WholeQueue s.cq
  table : ∀ offset ∈ s.offsetTable, Covered s offset
  file : ∀ offset ∈ s.delayOffset, Covered s offset
  task : Covered s (next s.task)
  /-- the buffer holds the entries that come next -/
  read : ∀ k (u : CQUnit), (buffer s.task)[k]? = some u →
    next s.task + k < s.cq.getMaxOffsetInQuque ∧
      ∀ u', entryAt s.cq (next s.task + k) = some u' → u' = u
  /-- what was gone over are the entries with these numbers -/
  same : ∀ h ∈ s.handled, h.1 < s.cq.getMaxOffsetInQuque ∧
    ∀ u', entryAt s.cq h.1 = some u' → u' = h.2.1
  done : ∀ h ∈ s.handled, isDone h.2.2

variable {s s' : DelayLevel}

/-- The queue changes, and its entries keep their numbers. -/
lemma Inv.withQueue (h : Inv s) {cq : ConsumeQueue} (hw : WholeQueue cq)
    (hk : KeepsEntries s.cq cq) : Inv { s with cq := cq } where
  whole := hw
  table := h.table
  file := h.file
  task := h.task
  read k u hu := by
    obtain ⟨hlt, hsame⟩ := h.read k u hu
    exact ⟨lt_of_lt_of_le hlt hk.max_le, fun u' hu' => hsame u' (hk.old h.whole hlt hu')⟩
  same e he := by
    obtain ⟨hlt, hsame⟩ := h.same e he
    exact ⟨lt_of_lt_of_le hlt hk.max_le, fun u' hu' => hsame u' (hk.old h.whole hlt hu')⟩
  done := h.done

/-- A task that stands at the same number, with an empty buffer or a fresh one. -/
lemma Inv.withTask (h : Inv s) {t : Task} (hnext : next t = next s.task)
    (hread : ∀ k (u : CQUnit), (buffer t)[k]? = some u → next t + k < s.cq.getMaxOffsetInQuque ∧
      ∀ u', entryAt s.cq (next t + k) = some u' → u' = u) : Inv { s with task := t } where
  whole := h.whole
  table := h.table
  file := h.file
  task := by rw [hnext]; exact h.task
  read := hread
  same := h.same
  done := h.done

lemma Inv.updateOffset (h : Inv s) : Inv (s.updateOffset (next s.task)) where
  whole := h.whole
  table offset ho := by
    obtain rfl := Option.mem_some_iff.mp ho
    exact h.task
  file := h.file
  task := h.task
  read k u hu := absurd hu (by simp [DelayLevel.updateOffset, buffer])
  same := h.same
  done := h.done

lemma Inv.reputs (h : Inv s) (reputs : List (ℕ × Outcome)) : Inv { s with reputs := reputs } :=
  ⟨h.whole, h.table, h.file, h.task, h.read, h.same, h.done⟩

lemma isDone_of_goesOn {o : Outcome} (hg : o.goesOn) (hne : o ≠ .putThrew) :
    isDone o := by
  cases o with
  | reput => rfl
  | notFound => rfl
  | timeupThrew => rfl
  | putThrew => exact absurd rfl hne
  | notDue => exact absurd hg (by decide)
  | refused => exact absurd hg (by decide)

/-- The task goes over one entry more. -/
lemma Inv.goOn (h : Inv s) {offset i : ℕ} {u : CQUnit} {rest : List CQUnit} {o : Outcome}
    (ht : s.task = .executing offset i (u :: rest)) (ho : isDone o) :
    Inv { s with task := .executing offset (i + 1) rest
                 handled := s.handled ++ [(offset + i, u, o)] } := by
  have hnext : next s.task = offset + i := by rw [ht]; rfl
  have hread := h.read
  have htask := h.task
  rw [hnext] at hread htask
  rw [ht] at hread
  have hmono : ∀ n, Covered s n → Covered { s with
      task := .executing offset (i + 1) rest
      handled := s.handled ++ [(offset + i, u, o)] } n := fun n hn =>
    hn.mono (List.Subset.refl _) (List.subset_append_left _ _)
  refine ⟨h.whole, fun n hn => hmono n (h.table n hn), fun n hn => hmono n (h.file n hn), ?_, ?_,
    ?_, ?_⟩
  · intro j hj
    rcases Nat.lt_succ_iff_lt_or_eq.mp (show j < offset + i + 1 from hj) with hj | rfl
    · exact hmono _ htask j hj
    · exact .inr ⟨u, o, by simp⟩
  · intro k v hv
    have := hread (k + 1) v hv
    rw [show offset + i + (k + 1) = offset + (i + 1) + k by omega] at this
    exact this
  · intro e he
    rcases List.mem_append.mp he with he | he
    · exact h.same e he
    · rw [List.mem_singleton.mp he]
      exact hread 0 u rfl
  · intro e he
    rcases List.mem_append.mp he with he | he
    · exact h.done e he
    · rw [List.mem_singleton.mp he]
      exact ho

lemma Inv.passEntry (h : Inv s) {delay : Int64} {p : Pass} {offset i : ℕ} {u : CQUnit}
    {rest : List CQUnit} (ht : s.task = .executing offset i (u :: rest))
    (hok : outcome delay p u ≠ .putThrew) : Inv (s.passEntry delay p offset i u rest) := by
  unfold DelayLevel.passEntry
  simp only
  generalize hs₁ : (if (outcome delay p u).isPut = true then
    { s with reputs := s.reputs ++ [(offset + i, outcome delay p u)] } else s) = s₁
  have h₁ : Inv s₁ ∧ s₁.task = s.task := by
    rw [← hs₁]
    split
    · exact ⟨h.reputs _, rfl⟩
    · exact ⟨h, rfl⟩
  split
  · next hg => exact h₁.1.goOn (h₁.2.trans ht) (isDone_of_goesOn hg hok)
  · have := h₁.1.updateOffset
    rw [h₁.2, ht] at this
    exact this

lemma Inv.correctOffset (h : Inv s) {offset : ℕ} (ht : s.task = .missing offset) :
    Inv (s.correctOffset offset) := by
  have htask := h.task
  rw [ht] at htask
  unfold DelayLevel.correctOffset
  simp only
  split
  · next hlt =>
    have hmono : ∀ n, Covered s n → Covered { s with
        task := .scheduled s.cq.getMinOffsetInQuque
        passed := s.passed ++ List.range' offset (s.cq.getMinOffsetInQuque - offset) } n :=
      fun n hn => hn.mono (List.subset_append_left _ _) (List.Subset.refl _)
    refine ⟨h.whole, fun n hn => hmono n (h.table n hn), fun n hn => hmono n (h.file n hn), ?_,
      fun k u hu => absurd hu (by simp [buffer]), h.same, h.done⟩
    intro j hj
    change j < s.cq.getMinOffsetInQuque at hj
    by_cases hjo : j < offset
    · exact hmono _ htask j hjo
    · refine .inl (List.mem_append_right _ ?_)
      rw [List.mem_range'_1]
      omega
  · exact h.withTask (by rw [ht]; rfl) fun k u hu => absurd hu (by simp [buffer])

lemma Inv.restart (h : Inv s) {cq : ConsumeQueue} (hr : Recovered s.cq cq)
    (hok : ∀ offset ∈ s.delayOffset, offset ≤ cq.getMaxOffsetInQuque) : Inv (s.restart cq) := by
  have hfile : ∀ offset ∈ s.delayOffset, Covered (s.restart cq) offset := by
    intro offset ho i hi
    have hlt := lt_of_lt_of_le hi (hok offset ho)
    rcases h.file offset ho i hi with hp | ⟨u, o, hm⟩
    · exact .inl (List.mem_filter.mpr ⟨hp, by simpa using hlt⟩)
    · exact .inr ⟨u, o, List.mem_filter.mpr ⟨hm, by simpa using hlt⟩⟩
  refine ⟨hr.whole, hfile, hfile, ?_,
    fun k u hu => absurd hu (by simp [buffer, DelayLevel.restart]), fun e he => ?_,
    fun e he => h.done e (List.mem_of_mem_filter he)⟩
  · change Covered (s.restart cq) (s.delayOffset.getD 0)
    cases hd : s.delayOffset with
    | none => exact fun i hi => absurd hi (Nat.not_lt_zero i)
    | some offset => exact hfile offset hd
  · obtain ⟨hmem, hlt⟩ := List.mem_filter.mp he
    exact ⟨of_decide_eq_true hlt, fun u' hu' => (h.same e hmem).2 u' (hr.old _ _ hu')⟩

/-- **What the tasks went over**, step by step. -/
lemma Inv.step {delay : Int64} {a : Action} (h : Inv s) (hlegal : Legal s a)
    (hsafe : Safe delay s a) (hs : ScheduleMessage.step delay s a = some s') : Inv s' := by
  cases a with
  | append writeable created u cqOffset =>
    obtain rfl := Option.some.inj hs
    obtain ⟨hw, hk⟩ := keeps_put h.whole writeable created u cqOffset
    exact h.withQueue hw hk
  | deleteExpiredFile offset destroys =>
    obtain rfl := Option.some.inj hs
    obtain ⟨hw, hk⟩ := keeps_deleteExpiredFile h.whole offset destroys
    exact h.withQueue hw hk
  | timeup =>
    simp only [ScheduleMessage.step] at hs
    split at hs
    · next offset ht =>
      split at hs
      · next us hb =>
        obtain rfl := Option.some.inj hs
        refine h.withTask (by rw [ht]; rfl) fun k u hu => ?_
        change us[k]? = some u at hu
        have hentry := entryAt_of_getIndexBuffer h.whole hb (List.getElem?_eq_some_iff.mp hu).1
        rw [hu] at hentry
        refine ⟨lt_of_entryAt h.whole hentry, fun u' hu' => ?_⟩
        exact Option.some.inj (hu'.symm.trans hentry)
      · obtain rfl := Option.some.inj hs
        exact h.withTask (by rw [ht]; rfl) fun k u hu => absurd hu (by simp [buffer])
    · next offset ht =>
      obtain rfl := Option.some.inj hs
      exact h.correctOffset ht
    · exact absurd hs (by simp)
  | pass p =>
    simp only [ScheduleMessage.step] at hs
    split at hs
    · next offset i u rest ht =>
      obtain rfl := Option.some.inj hs
      refine h.passEntry ht fun hthrew => ?_
      simp [Safe, ht, putThrows, hthrew] at hsafe
    · next offset i ht =>
      obtain rfl := Option.some.inj hs
      have := h.updateOffset
      rw [ht] at this
      exact this
    · exact absurd hs (by simp)
  | persist =>
    obtain rfl := Option.some.inj hs
    exact ⟨h.whole, h.table, h.table, h.task, h.read, h.same, h.done⟩
  | restart recovered =>
    obtain rfl := Option.some.inj hs
    exact h.restart hlegal hsafe

lemma Inv.delivered (h : Inv s) : Delivered s := by
  intro offset ho i hi u hu
  refine (h.table offset ho i hi).imp_right fun ⟨v, o, hm⟩ => ?_
  obtain rfl := (h.same _ hm).2 u hu
  exact ⟨o, h.done _ hm, hm⟩

end Covered

/-! ### Runs -/

section Runs

variable {delay : Int64} {size : ℕ} {hpos : 0 < size}

lemma whole_newQueue (hdvd : CQStoreUnitSize ∣ size) : WholeQueue (newQueue size hpos) :=
  (tracked_newQueue hpos hdvd).toWhole

lemma inv_newLevel (hdvd : CQStoreUnitSize ∣ size) : Inv (newLevel size hpos) where
  whole := whole_newQueue hdvd
  table := by simp [newLevel]
  file := by simp [newLevel]
  task i hi := absurd hi (Nat.not_lt_zero i)
  read k u hu := absurd hu (by simp [buffer, newLevel])
  same := by simp [newLevel]
  done := by simp [newLevel]

lemma ordered_newLevel : Ordered (newLevel size hpos) := ⟨List.Pairwise.nil, by simp [newLevel]⟩

/-- **Delayed delivery.** The messages of a level are put in order in every run. In a run whose
starts find a queue that reaches up to the offset in the file, and in which no put throws, no entry
below the offset of the level was skipped. -/
theorem delayed_delivery (hdvd : CQStoreUnitSize ∣ size) {as : List Action} {s : DelayLevel}
    (hlegal : Meets (step delay) Legal (newLevel size hpos) as)
    (hrun : run (step delay) (newLevel size hpos) as = some s) :
    InOrder s.reputs ∧
      (Meets (step delay) (Safe delay) (newLevel size hpos) as → Delivered s) := by
  refine ⟨(run_inductive (fun _ _ _ h hs => h.step hs) ordered_newLevel hrun).order,
    fun hsafe => ?_⟩
  have hinv := run_invariant (fun _ _ _ h hok hs => Inv.step h hok.1 hok.2 hs)
    (inv_newLevel hdvd) (hlegal.and hsafe) hrun
  exact hinv.delivered

end Runs

/-! ### A queue that lost its end -/

section Shorter

def first : CQUnit := ⟨100, 50, 1000⟩
def second : CQUnit := ⟨150, 50, 1000⟩
def third : CQUnit := ⟨150, 60, 2000⟩

def append (u : CQUnit) (cqOffset : ℕ) : Action := .append true (fun _ => true) u cqOffset

def delayedMessage : MessageExt where
  body := none
  flag := 0
  properties := (Props.empty.put PROPERTY_REAL_TOPIC "T".toList).put PROPERTY_REAL_QUEUE_ID
    "0".toList
  sysFlag := 0
  bornTimestamp := 0
  bornHost := ⟨.inet4 127 0 0 1, 10911⟩
  storeHost := ⟨.inet4 127 0 0 1, 10911⟩
  reconsumeTimes := 0

lemma perm_entries (m : Props) : m.entries.Perm m.entries := List.Perm.refl _

/-- Every message is found and put. -/
def passAt (now : Int64) : Action :=
  .pass ⟨now, ⟨Props.entries, perm_entries⟩, fun _ _ => some delayedMessage,
    fun _ => .ok (some .PUT_OK)⟩

lemma pos_40 : 0 < 40 := by decide

def newLevel40 : DelayLevel := newLevel 40 pos_40

/-- The queue as it is when only the first entry reached the disk. -/
def recoveredQueue : ConsumeQueue :=
  (newLevel40.cq.putMessagePostionInfoWrapper true (fun _ => true) first 0).1.load.recover

lemma whole_recoveredQueue : WholeQueue recoveredQueue := by
  have htracked : Tracked (newQueue 40 pos_40) := tracked_newQueue pos_40 (by decide)
  have hvalid : first.isValid := by decide
  rcases @putWrapper_cases _ _ 0 htracked hvalid true fun _ => true with
    ⟨hle, -⟩ | ⟨-, cq', ⟨hput, hent⟩ | ⟨hno, -⟩⟩
  · exact absurd (show (100 : ℤ) ≤ -1 from hle) (by decide)
  · unfold recoveredQueue
    change WholeQueue ((newQueue 40 pos_40).putMessagePostionInfoWrapper _ _ _ _).1.load.recover
    rw [hput]
    exact hent.tracked.restart.1.toWhole
  · exact absurd ⟨rfl, 0, by decide, rfl⟩ hno

/-- A queue that holds the first entry may be recovered as that queue. -/
lemma recovered_recoveredQueue {cq : ConsumeQueue} (h : entryAt cq 0 = some first) :
    Recovered cq recoveredQueue := by
  refine ⟨whole_recoveredQueue, fun i u hu => ?_⟩
  have hlt : i < 1 := lt_of_entryAt whole_recoveredQueue hu
  obtain rfl : i = 0 := by omega
  rw [h, ← hu]
  rfl

/-- Two messages are put, and the offset behind them is written to the file. -/
def bothPut : List Action :=
  [append first 0, append second 1, .timeup, passAt 5000, passAt 5000, passAt 5000, .persist]

/-- The first message is put, the second one is not due. -/
def firstPut : List Action :=
  [append first 0, append second 1, .timeup, passAt 1000, passAt 0, .persist]

/-- Recovery finds the first entry, and another message is dispatched. -/
def startedAgain : List Action := [.restart recoveredQueue, append third 1]

/-- A run without a start is a legal one. -/
def startless : Action → Bool
  | .restart _ => false
  | _ => true

lemma legal_of_startless {delay : Int64} {s : DelayLevel} {as : List Action}
    (h : ∀ a ∈ as, startless a) : Meets (step delay) Legal s as := by
  induction as generalizing s with
  | nil => trivial
  | cons a as ih =>
    refine ⟨?_, fun s' _ => ih fun b hb => h b (List.mem_cons_of_mem _ hb)⟩
    have ha := h a List.mem_cons_self
    cases a with
    | restart recovered => exact absurd ha (by simp [startless])
    | _ => trivial

/-- Where a run leads. -/
def after (as : List Action) : DelayLevel := (run (step 1000) newLevel40 as).getD newLevel40

/-- A run that starts once, with the queue above. -/
lemma legal_startedAgain {as bs : List Action} {s : DelayLevel} (has : ∀ a ∈ as, startless a)
    (hrun : run (step 1000) newLevel40 as = some s) (hentry : entryAt s.cq 0 = some first)
    (hbs : ∀ a ∈ bs, startless a) :
    Meets (step 1000) Legal newLevel40 (as ++ .restart recoveredQueue :: bs) :=
  (legal_of_startless has).concat hrun
    ⟨recovered_recoveredQueue hentry, fun _ _ => legal_of_startless hbs⟩

/-- The offset goes beyond the queue that was recovered: the entry that is put next is never
read. -/
theorem delayed_delivery_shorter_queue :
    Meets (step 1000) Legal newLevel40 (bothPut ++ startedAgain) ∧
      ∃ s, run (step 1000) newLevel40 (bothPut ++ startedAgain) = some s ∧ ¬ Delivered s := by
  have hrun : run (step 1000) newLevel40 bothPut = some (after bothPut) := rfl
  refine ⟨legal_startedAgain (by decide) hrun rfl (by decide), after (bothPut ++ startedAgain), rfl,
    fun h => ?_⟩
  rcases h 2 rfl 1 (by decide) third rfl with hp | ⟨o, -, hm⟩
  · exact absurd hp (by decide)
  · -- only the first entry is left of those the tasks went over
    have hfirst : ∀ e ∈ (after (bothPut ++ startedAgain)).handled, e.1 = 0 := by decide
    exact absurd (hfirst _ hm) Nat.one_ne_zero

/-- When the offset in the file is not beyond the queue, the entry that is put next is read. -/
theorem delayed_delivery_started_again :
    ∃ s, run (step 1000) newLevel40
        (firstPut ++ startedAgain ++ [.timeup, passAt 5000, passAt 5000]) = some s ∧
      s.offsetTable = some 2 ∧ InOrder s.reputs ∧ Delivered s := by
  have hrun : run (step 1000) newLevel40 firstPut = some (after firstPut) := rfl
  have hlegal : Meets (step 1000) Legal newLevel40
      (firstPut ++ startedAgain ++ [.timeup, passAt 5000, passAt 5000]) :=
    legal_startedAgain (by decide) hrun rfl (by decide)
  have hsafe : Meets (step 1000) (Safe 1000) newLevel40
      (firstPut ++ startedAgain ++ [.timeup, passAt 5000, passAt 5000]) :=
    meets_of_checks (fun s a => of_decide_eq_true) (by decide)
  have hdvd : CQStoreUnitSize ∣ 40 := by decide
  have h := delayed_delivery hdvd hlegal rfl
  exact ⟨_, rfl, rfl, h.1, h.2 hsafe⟩

end Shorter

end CloudMQ.DelayedDelivery
