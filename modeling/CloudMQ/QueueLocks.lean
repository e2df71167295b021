import CloudMQ.Leases
import CloudMQ.RebalanceLock

/-!
The lock of a queue, from the broker to the consumers that take messages in order.

The broker locks a queue for a client for a time, and a consumer notes that it has the lock when an
answer says so; from then on it goes by its own clock, for a shorter time. Requests and answers take
as long as they like. A consumer that loses a queue drops its process queue and has the broker
unlock the queue, and does not wait for that.
-/

namespace CloudMQ.QueueLocks

open CloudMQ.Utf8 CloudMQ.Tables CloudMQ.Runs CloudMQ.TopicRoutes
open CloudMQ.RebalanceLock CloudMQ.Leases

/-! ### The system -/

/-- A process queue, at one of the clients, as far as locks go. -/
structure ProcessQueue where
  clientId : Text
  dropped : Bool
  locked : Bool
  lastLockTimestamp : ℤ

/-- The queue that is looked at, and the group, with `lockMaxLiveTime` at the broker and at the
clients. -/
structure Config where
  group : Text
  mq : MessageQueue
  brokerLockMaxLiveTime : ℕ
  clientLockMaxLiveTime : ℕ

namespace ProcessQueue

variable (cfg : Config) (now : ℤ)

def isLockExpired (p : ProcessQueue) : Bool := cfg.clientLockMaxLiveTime < now - p.lastLockTimestamp

/-- `ConsumeRequest.run` takes messages from it. -/
def isConsumed (p : ProcessQueue) : Bool := !p.dropped && p.locked && !p.isLockExpired cfg now

end ProcessQueue

/-- What a step of the broker means for the queue. -/
inductive Event
  | granted (i : ℕ) (clientId : Text)
  | released (clientId : Text)

structure System where
  broker : State
  /-- the process queues that were made for the queue -/
  processQueues : List ProcessQueue
  /-- answers that set `locked` of a process queue, and have the timestamp still to set -/
  noting : List (ℕ × ℕ)
  /-- when the calls got the queue, unless the client gave it back after that -/
  grants : ℕ → Option (Text × ℤ)

inductive Action
  | broker (a : RebalanceLock.Action)
  | newProcessQueue (clientId : Text)
  | setDropped (k : ℕ)
  | setLocked (i k : ℕ)
  | setLastLockTimestamp (i k : ℕ)
  | setUnlocked (i k : ℕ)

namespace System

variable (cfg : Config)

def now (s : System) : ℤ := s.broker.currentTimeMillis

def modify (s : System) (k : ℕ) (f : ProcessQueue → ProcessQueue) : System :=
  { s with processQueues := s.processQueues.modify k f }

/-- The answer of a call for the queue, at a process queue of its client. -/
def answer (s : System) (i k : ℕ) : Option (Call × ProcessQueue) :=
  s.broker.calls[i]?.bind fun c => s.processQueues[k]?.bind fun p =>
    if c.stage = .returned ∧ c.group = cfg.group ∧ c.clientId = p.clientId then some (c, p)
    else none

/-- A call gets the queue when it refreshes the entry, or has the lock; an `unlockBatch` gives the
queue back when the entry names its client. -/
def event (s : System) : RebalanceLock.Action → Option Event
  | .refresh i => s.broker.calls[i]?.bind fun c =>
    match c.stage with
    | .refreshing _ _ =>
      if c.group = cfg.group ∧ c.lockedMqs.getLast? = some cfg.mq then
        some (.granted i c.clientId)
      else none
    | _ => none
  | .turn i => s.broker.calls[i]?.bind fun c =>
    match c.stage with
    | .locked (mq :: _) =>
      if c.group = cfg.group ∧ mq = cfg.mq then
        if c.method = .unlockBatch then
          if (s.broker.entry cfg.group cfg.mq).any (·.clientId = c.clientId) then
            some (.released c.clientId)
          else none
        else if (s.broker.lockOne cfg.brokerLockMaxLiveTime cfg.group cfg.mq c.clientId).2 then
          some (.granted i c.clientId)
        else none
      else none
    | _ => none
  | _ => none

def note (s : System) : Option Event → ℕ → Option (Text × ℤ)
  | some (.granted i clientId) => Function.update s.grants i (some (clientId, s.now))
  | some (.released clientId) => fun i => (s.grants i).filter fun g => g.1 ≠ clientId
  | none => s.grants

/-- `setUnlocked` is for a queue that an answer leaves out, or after it was unlocked. -/
def step (s : System) : Action → Option System
  | .broker a =>
    (RebalanceLock.step cfg.brokerLockMaxLiveTime s.broker a).map fun broker =>
      { s with broker := broker, grants := s.note (s.event cfg a) }
  | .newProcessQueue clientId =>
    some { s with processQueues := s.processQueues ++ [⟨clientId, false, false, s.now⟩] }
  | .setDropped k => some (s.modify k fun p => { p with dropped := true })
  | .setLocked i k =>
    (s.answer cfg i k).bind fun r =>
      if r.1.method = .tryLockBatch ∧ cfg.mq ∈ r.1.lockedMqs then
        some { s.modify k fun p => { p with locked := true } with noting := (i, k) :: s.noting }
      else none
  | .setLastLockTimestamp i k =>
    if (i, k) ∈ s.noting then
      some { s.modify k fun p => { p with lastLockTimestamp := s.now } with
        noting := s.noting.erase (i, k) }
    else none
  | .setUnlocked i k =>
    (s.answer cfg i k).bind fun r =>
      if cfg.mq ∈ r.1.mqs ∧ (r.1.method = .tryLockBatch → cfg.mq ∉ r.1.lockedMqs) then
        some (s.modify k fun p => { p with locked := false })
      else none

end System

def newSystem (currentTimeMillis : ℤ) : System where
  broker := newState currentTimeMillis
  processQueues := []
  noting := []
  grants _ := none

/-- The call that refreshes an entry finds it as it was: the entry of the queue, and its
client's. -/
def Current (cfg : Config) (s : System) (i : ℕ) : Prop :=
  ∀ c ∈ s.broker.calls[i]?, ∀ entry mqs, c.stage = .refreshing entry mqs →
    s.broker.find cfg.group cfg.mq = some entry ∧
      ∃ e ∈ s.broker.entries[entry]?, e.clientId = c.clientId

/-- **The condition** on a step. An entry that is refreshed is current; a queue that is unlocked is
not consumed by the client it is unlocked for; an answer is noted so soon after the queue was got,
and while it was not given back, that the lock lives longer than the consumer goes by it. -/
def Timely (cfg : Config) (s : System) : Action → Prop
  | .broker a =>
    match s.event cfg a with
    | some (.granted i _) => Current cfg s i
    | some (.released clientId) =>
      ∀ p ∈ s.processQueues, p.clientId = clientId → p.isConsumed cfg s.now = false
    | none => True
  | .setLocked i _ | .setLastLockTimestamp i _ =>
    ∃ g ∈ s.grants i, s.now - g.2 ≤ (cfg.brokerLockMaxLiveTime : ℤ) - cfg.clientLockMaxLiveTime
  | _ => True

/-! ### The entry of the queue -/

/-- Every queue has an entry of its own. -/
structure Apart (b : State) : Prop where
  lt : ∀ {group mq n}, b.find group mq = some n → n < b.entries.length
  inj : ∀ {group group' mq mq' n}, b.find group mq = some n → b.find group' mq' = some n →
    group = group' ∧ mq = mq'

section Entries

variable {b b' : State} {live n : ℕ} {group group' clientId : Text} {mq mq' : MessageQueue}

lemma entry_of_find (h : b.find group mq = some n) : b.entry group mq = b.entries[n]? := by
  rw [State.entry, h, Option.bind_some]

lemma Apart.of_find_eq (h : Apart b) (hfind : ∀ group mq, b'.find group mq = b.find group mq)
    (hlength : b'.entries.length = b.entries.length) : Apart b' where
  lt hn := hlength ▸ h.lt (hfind _ _ ▸ hn)
  inj hn hn' := h.inj (hfind _ _ ▸ hn) (hfind _ _ ▸ hn')

/-- A change of one entry is one of its queue alone. -/
lemma Apart.entry_eq_of_ne (h : Apart b) (hn : b.find group mq = some n)
    (hfind : ∀ group mq, b'.find group mq = b.find group mq)
    (hother : ∀ j, j ≠ n → b'.entries[j]? = b.entries[j]?)
    (hne : ¬ (group' = group ∧ mq' = mq)) : b'.entry group' mq' = b.entry group' mq' := by
  rw [State.entry, State.entry, hfind]
  cases hj : b.find group' mq' with
  | none => rfl
  | some j =>
    refine hother j fun heq => hne ?_
    subst heq
    exact h.inj hj hn

lemma getElem?_setTimestamp_self (b : State) (n : ℕ) : (b.setTimestamp n).entries[n]? =
    b.entries[n]?.map fun e => { e with lastUpdateTimestamp := b.currentTimeMillis } := by
  simp [State.setTimestamp]

lemma getElem?_setTimestamp_of_ne {j : ℕ} (h : j ≠ n) :
    (b.setTimestamp n).entries[j]? = b.entries[j]? := by
  simp [State.setTimestamp, h.symm]

lemma find_create (h : b.find group mq = none) (e : LockEntry) (group' : Text)
    (mq' : MessageQueue) :
    ({ b with
        mqLockTable := b.mqLockTable.insert group
          (((b.mqLockTable.lookup group).getD ∅).insert mq b.entries.length)
        entries := b.entries ++ [e] } : State).find group' mq' =
      if group' = group ∧ mq' = mq then some b.entries.length else b.find group' mq' := by
  simp only [State.find, lookup_insert_ite]
  by_cases hg : group' = group
  · subst hg
    rw [if_pos rfl, Option.bind_some, lookup_insert_ite]
    by_cases hm : mq' = mq
    · simp [hm]
    · rw [if_neg hm, if_neg (by simp [hm])]
      cases b.mqLockTable.lookup group' with
      | none => simp
      | some t => rfl
  · simp [hg]

/-- The entry of the queue is the one that was there, or a new one of the client. -/
lemma getOrCreate_spec (h : Apart b) (group clientId : Text) (mq : MessageQueue) :
    Apart (b.getOrCreate group mq clientId).1 ∧
    (b.getOrCreate group mq clientId).1.currentTimeMillis = b.currentTimeMillis ∧
    (∃ e, (b.getOrCreate group mq clientId).1.entries[(b.getOrCreate group mq clientId).2]? =
        some e ∧ (b.entry group mq = some e ∨
          b.entry group mq = none ∧ e = ⟨clientId, b.currentTimeMillis⟩)) ∧
    ∀ group' mq', ¬ (group' = group ∧ mq' = mq) →
      (b.getOrCreate group mq clientId).1.entry group' mq' = b.entry group' mq' := by
  cases hfind : b.find group mq with
  | some n =>
    have heq : b.getOrCreate group mq clientId = (b, n) := by
      rw [State.getOrCreate, hfind]
    have hlt := h.lt hfind
    rw [heq]
    refine ⟨h, rfl, ⟨b.entries[n], List.getElem?_eq_getElem hlt, .inl ?_⟩, fun _ _ _ => rfl⟩
    rw [entry_of_find hfind, List.getElem?_eq_getElem hlt]
  | none =>
    have heq : b.getOrCreate group mq clientId = ({ b with
        mqLockTable := b.mqLockTable.insert group
          (((b.mqLockTable.lookup group).getD ∅).insert mq b.entries.length)
        entries := b.entries ++ [⟨clientId, b.currentTimeMillis⟩] }, b.entries.length) := by
      rw [State.getOrCreate, hfind]
    have hcreate := find_create hfind ⟨clientId, b.currentTimeMillis⟩
    rw [heq]
    refine ⟨⟨fun {g m n} hn => ?_, fun {g g' m m' n} hn hn' => ?_⟩, rfl,
      ⟨⟨clientId, b.currentTimeMillis⟩, by simp, .inr ⟨?_, rfl⟩⟩, fun g m hne => ?_⟩
    · rw [List.length_append, List.length_singleton]
      rw [hcreate] at hn
      split_ifs at hn
      · obtain rfl := Option.some.inj hn
        exact Nat.lt_succ_self _
      · exact (h.lt hn).trans (Nat.lt_succ_self _)
    · rw [hcreate] at hn hn'
      split_ifs at hn hn' with h1 h2 h2
      · exact ⟨h1.1.trans h2.1.symm, h1.2.trans h2.2.symm⟩
      · have := h.lt hn'
        obtain rfl := Option.some.inj hn
        exact absurd this (Nat.lt_irrefl _)
      · have := h.lt hn
        obtain rfl := Option.some.inj hn'
        exact absurd this (Nat.lt_irrefl _)
      · exact h.inj hn hn'
    · rw [State.entry, hfind, Option.bind_none]
    · rw [State.entry, State.entry, hcreate, if_neg hne]
      cases hj : b.find g m with
      | none => rfl
      | some j =>
        have hlt := h.lt hj
        rw [Option.bind_some, Option.bind_some, List.getElem?_append_left hlt]

/-- What a turn of a call that locks does to the entries. -/
lemma lockOne_spec (h : Apart b) (live : ℕ) (group clientId : Text) (mq : MessageQueue) :
    Apart (b.lockOne live group mq clientId).1 ∧
    (b.lockOne live group mq clientId).1.currentTimeMillis = b.currentTimeMillis ∧
    (∀ group' mq', ¬ (group' = group ∧ mq' = mq) →
      (b.lockOne live group mq clientId).1.entry group' mq' = b.entry group' mq') ∧
    if (b.lockOne live group mq clientId).2 then
      (∀ e ∈ b.entry group mq, e.clientId = clientId ∨
        (live : ℤ) < b.currentTimeMillis - e.lastUpdateTimestamp) ∧
      (b.lockOne live group mq clientId).1.entry group mq = some ⟨clientId, b.currentTimeMillis⟩
    else (b.lockOne live group mq clientId).1.entry group mq = b.entry group mq := by
  obtain ⟨hapart, hnow, ⟨e, he, hentry⟩, hother⟩ := getOrCreate_spec h group clientId mq
  have hfind := find_getOrCreate b group mq clientId
  have hold : ∀ e' ∈ b.entry group mq, e' = e := by
    intro e' he'
    rcases hentry with hsome | ⟨hnone, -⟩
    · exact Option.some.inj (he'.symm.trans hsome)
    · rw [hnone] at he'
      cases he'
  generalize hr : b.getOrCreate group mq clientId = r at *
  have hset : ∀ b' : State, (∀ group mq, b'.find group mq = r.1.find group mq) →
      b'.entries.length = r.1.entries.length →
      (∀ j, j ≠ r.2 → b'.entries[j]? = r.1.entries[j]?) →
      Apart b' ∧ ∀ group' mq', ¬ (group' = group ∧ mq' = mq) →
        b'.entry group' mq' = b.entry group' mq' := by
    intro b' hfind' hlength hother'
    refine ⟨hapart.of_find_eq hfind' hlength, fun g m hne => ?_⟩
    rw [hapart.entry_eq_of_ne hfind hfind' hother' hne, hother g m hne]
  rw [State.lockOne]
  simp only [hr, he]
  by_cases hlocked : e.isLocked live b.currentTimeMillis clientId = true
  · have hname : e.clientId = clientId := by
      rw [LockEntry.isLocked, Bool.and_eq_true, decide_eq_true_eq] at hlocked
      exact hlocked.1
    obtain ⟨hap, hoth⟩ := hset (r.1.setTimestamp r.2) (fun _ _ => rfl)
      (by simp [State.setTimestamp]) fun j hj => getElem?_setTimestamp_of_ne hj
    rw [if_pos hlocked]
    refine ⟨hap, hnow, hoth, ?_⟩
    rw [if_pos rfl]
    refine ⟨fun e' he' => .inl ((congrArg _ (hold e' he')).trans hname), ?_⟩
    rw [entry_of_find (b := r.1.setTimestamp r.2) hfind, getElem?_setTimestamp_self, he, hnow,
      ← hname]
    rfl
  · rw [if_neg hlocked]
    by_cases hexpired : e.isExpired live b.currentTimeMillis = true
    · have hlt := (List.getElem?_eq_some_iff.mp he).1
      obtain ⟨hap, hoth⟩ := hset { r.1 with
          entries := r.1.entries.set r.2 ⟨clientId, b.currentTimeMillis⟩ } (fun _ _ => rfl)
        (by simp) fun j hj => List.getElem?_set_ne hj.symm
      rw [if_pos hexpired]
      refine ⟨hap, hnow, hoth, ?_⟩
      rw [if_pos rfl]
      refine ⟨fun e' he' => .inr ?_, ?_⟩
      · rw [hold e' he']
        exact of_decide_eq_true hexpired
      · refine (entry_of_find (b := { r.1 with
          entries := r.1.entries.set r.2 ⟨clientId, b.currentTimeMillis⟩ }) hfind).trans ?_
        exact List.getElem?_set_self hlt
    · rw [if_neg hexpired]
      refine ⟨hapart, hnow, hother, ?_⟩
      rw [if_neg (by simp), entry_of_find hfind, he]
      rcases hentry with hsome | ⟨-, rfl⟩
      · exact hsome.symm
      · exact absurd (by simp [LockEntry.isLocked, LockEntry.isExpired]) hlocked

/-- A turn of a call that unlocks: an entry that names the client is taken away. -/
lemma unlockOne_spec (h : Apart b) (group clientId : Text) (mq : MessageQueue) :
    Apart (b.unlockOne group mq clientId) ∧
    (b.unlockOne group mq clientId).currentTimeMillis = b.currentTimeMillis ∧
    (∀ group' mq', ¬ (group' = group ∧ mq' = mq) →
      (b.unlockOne group mq clientId).entry group' mq' = b.entry group' mq') ∧
    (b.unlockOne group mq clientId).entry group mq =
      (b.entry group mq).filter fun e => e.clientId ≠ clientId := by
  cases hgroup : b.mqLockTable.lookup group with
  | none =>
    have heq : b.unlockOne group mq clientId = b := by
      rw [State.unlockOne, hgroup]
    have hentry : b.entry group mq = none := by
      rw [State.entry, State.find, hgroup, Option.bind_none, Option.bind_none]
    rw [heq, hentry]
    exact ⟨h, rfl, fun _ _ _ => rfl, rfl⟩
  | some groupValue =>
    have hentry : b.entry group mq = (groupValue.lookup mq).bind (b.entries[·]?) := by
      rw [State.entry, State.find, hgroup, Option.bind_some]
    cases he : (groupValue.lookup mq).bind (b.entries[·]?) with
    | none =>
      have heq : b.unlockOne group mq clientId = b := by
        simp only [State.unlockOne, hgroup, he]
      rw [heq, hentry, he]
      exact ⟨h, rfl, fun _ _ _ => rfl, rfl⟩
    | some e =>
      by_cases hname : e.clientId = clientId
      · have heq : b.unlockOne group mq clientId =
            { b with mqLockTable := b.mqLockTable.insert group (groupValue.erase mq) } := by
          simp only [State.unlockOne, hgroup, he, if_pos hname]
        have hfind : ∀ g m, (b.unlockOne group mq clientId).find g m =
            if g = group ∧ m = mq then none else b.find g m := by
          intro g m
          rw [heq, State.find, State.find, lookup_insert_ite]
          by_cases hg : g = group
          · subst hg
            rw [if_pos rfl, Option.bind_some, lookup_erase_ite, hgroup]
            by_cases hm : m = mq <;> simp [hm]
          · simp [hg]
        have hentries : (b.unlockOne group mq clientId).entries = b.entries := by rw [heq]
        refine ⟨⟨fun {g m n} hn => ?_, fun {g g' m m' n} hn hn' => ?_⟩, by rw [heq],
          fun g m hne => ?_, ?_⟩
        · rw [hfind] at hn
          split_ifs at hn
          rw [hentries]
          exact h.lt hn
        · rw [hfind] at hn hn'
          split_ifs at hn hn'
          exact h.inj hn hn'
        · rw [State.entry, State.entry, hfind, if_neg hne, hentries]
        · rw [State.entry, hfind, if_pos ⟨rfl, rfl⟩, hentry, he, Option.bind_none,
            Option.filter_some_neg (by simpa using hname)]
      · have heq : b.unlockOne group mq clientId = b := by
          simp only [State.unlockOne, hgroup, he, if_neg hname]
        rw [heq, hentry, he]
        exact ⟨h, rfl, fun _ _ _ => rfl, (Option.filter_some_pos (by simpa using hname)).symm⟩

end Entries

/-! ### The steps of the broker -/

/-- The same entries at the same time. -/
structure Alike (b b' : State) : Prop where
  find : ∀ group mq, b'.find group mq = b.find group mq
  entries : b'.entries = b.entries
  now : b'.currentTimeMillis = b.currentTimeMillis

/-- Calls keep their numbers and their clients. -/
def Named (calls calls' : List Call) : Prop :=
  ∀ (i : ℕ) (c : Call), calls[i]? = some c → ∃ c' : Call, calls'[i]? = some c' ∧
    c'.clientId = c.clientId

section Broker

variable {b b' : State} {live : ℕ} {group : Text} {mq : MessageQueue}

lemma Alike.refl (b : State) : Alike b b := ⟨fun _ _ => rfl, rfl, rfl⟩

lemma Alike.apart (h : Alike b b') (ha : Apart b) : Apart b' :=
  ha.of_find_eq h.find (congrArg List.length h.entries)

lemma Alike.entry (h : Alike b b') (group : Text) (mq : MessageQueue) :
    b'.entry group mq = b.entry group mq := by
  rw [State.entry, State.entry, h.find, h.entries]

lemma alike_observe (live : ℕ) (b : State) : Alike b (b.observe live) :=
  ⟨fun _ _ => rfl, rfl, rfl⟩

lemma named_set {calls : List Call} {j : ℕ} {c c' : Call} (hj : calls[j]? = some c)
    (hname : c'.clientId = c.clientId) : Named calls (calls.set j c') := by
  intro i c₀ hi
  by_cases hij : j = i
  · subst hij
    rw [hj, Option.some.injEq] at hi
    subst hi
    exact ⟨c', List.getElem?_set_self (List.getElem?_eq_some_iff.mp hj).1, hname⟩
  · exact ⟨c₀, by rw [List.getElem?_set_ne hij, hi], rfl⟩

lemma named_append (calls : List Call) (c : Call) : Named calls (calls ++ [c]) := by
  intro i c₀ hi
  have hlt := (List.getElem?_eq_some_iff.mp hi).1
  exact ⟨c₀, by rw [List.getElem?_append_left hlt, hi], rfl⟩

lemma named_observe (live : ℕ) {calls : List Call} (h : Named calls b.calls) :
    Named calls (b.observe live).calls := by
  intro i c hi
  obtain ⟨c', hc', hname⟩ := h i c hi
  refine ⟨c'.observe live b, by simp [State.observe, hc'], ?_⟩
  rw [Call.observe]
  split_ifs <;> exact hname

lemma clientId_foldl_get (mqs : List MessageQueue) (c : Call) :
    (mqs.foldl (·.get live b ·) c).clientId = c.clientId := by
  induction mqs generalizing c with
  | nil => rfl
  | cons mq mqs ih => exact ih _

/-- Most steps leave the entries alone. -/
lemma act_quiet {a : RebalanceLock.Action} (hs : act live b a = some b')
    (htick : ∀ n, a ≠ .tick n) (hrefresh : ∀ i, a ≠ .refresh i) (hturn : ∀ i, a ≠ .turn i) :
    Alike b b' ∧ Named b.calls b'.calls := by
  cases a with
  | tick n => exact absurd rfl (htick n)
  | refresh i => exact absurd rfl (hrefresh i)
  | turn i => exact absurd rfl (hturn i)
  | call method group mqs clientId =>
    obtain ⟨-, hs⟩ := Option.ite_none_left_eq_some.mp hs
    cases hs
    exact ⟨⟨fun _ _ => rfl, rfl, rfl⟩, named_append _ _⟩
  | check i =>
    obtain ⟨c, hi, hs⟩ := Option.bind_eq_some_iff.mp hs
    cases hstage : c.stage with
    | checking l =>
      cases l with
      | nil =>
        simp only [hstage, Option.some.injEq] at hs
        subst hs
        exact ⟨⟨fun _ _ => rfl, rfl, rfl⟩, named_set hi rfl⟩
      | cons mq mqs =>
        simp only [hstage] at hs
        split at hs
        · split_ifs at hs <;> cases hs <;>
            exact ⟨⟨fun _ _ => rfl, rfl, rfl⟩, named_set hi rfl⟩
        · cases hs
          exact ⟨⟨fun _ _ => rfl, rfl, rfl⟩, named_set hi rfl⟩
    | _ => simp [hstage] at hs
  | lockInterruptibly i =>
    obtain ⟨c, hi, hs⟩ := Option.bind_eq_some_iff.mp hs
    obtain ⟨-, hs⟩ := Option.ite_none_right_eq_some.mp hs
    cases hs
    exact ⟨⟨fun _ _ => rfl, rfl, rfl⟩, named_set hi rfl⟩
  | interrupt i =>
    obtain ⟨c, hi, hs⟩ := Option.bind_eq_some_iff.mp hs
    obtain ⟨-, hs⟩ := Option.ite_none_right_eq_some.mp hs
    split at hs
    · cases hs
      exact ⟨⟨fun _ _ => rfl, rfl, rfl⟩, named_set hi (clientId_foldl_get _ c)⟩
    · cases hs
      exact ⟨⟨fun _ _ => rfl, rfl, rfl⟩, named_set hi rfl⟩
  | unlock i =>
    obtain ⟨c, hi, hs⟩ := Option.bind_eq_some_iff.mp hs
    split at hs
    · cases hs
      exact ⟨⟨fun _ _ => rfl, rfl, rfl⟩, named_set hi rfl⟩
    · cases hs
  | ret i =>
    obtain ⟨c, hi, hs⟩ := Option.bind_eq_some_iff.mp hs
    obtain ⟨-, hs⟩ := Option.ite_none_right_eq_some.mp hs
    cases hs
    exact ⟨⟨fun _ _ => rfl, rfl, rfl⟩, named_set hi rfl⟩

lemma act_refresh {i : ℕ} (hs : act live b (.refresh i) = some b') :
    ∃ c n mqs, b.calls[i]? = some c ∧ c.stage = .refreshing n mqs ∧
      Alike (b.setTimestamp n) b' ∧ Named b.calls b'.calls := by
  obtain ⟨c, hi, hs⟩ := Option.bind_eq_some_iff.mp hs
  cases hstage : c.stage with
  | refreshing n mqs =>
    simp only [hstage, Option.some.injEq] at hs
    subst hs
    exact ⟨c, n, mqs, hi, hstage, ⟨fun _ _ => rfl, rfl, rfl⟩, named_set hi rfl⟩
  | _ => simp [hstage] at hs

lemma act_turn {i : ℕ} (hs : act live b (.turn i) = some b') :
    ∃ c mq mqs, b.calls[i]? = some c ∧ c.stage = .locked (mq :: mqs) ∧
      Alike (if c.method = .unlockBatch then b.unlockOne c.group mq c.clientId
        else (b.lockOne live c.group mq c.clientId).1) b' ∧ Named b.calls b'.calls := by
  obtain ⟨c, hi, hs⟩ := Option.bind_eq_some_iff.mp hs
  cases hstage : c.stage with
  | locked l =>
    cases l with
    | nil => simp [hstage] at hs
    | cons mq mqs =>
      refine ⟨c, mq, mqs, hi, hstage, ?_⟩
      simp only [hstage] at hs
      split_ifs at hs ⊢ with hunlock hgot
      · cases hs
        refine ⟨⟨fun _ _ => rfl, rfl, rfl⟩, ?_⟩
        rw [State.setCall, calls_unlockOne]
        exact named_set hi rfl
      · cases hs
        refine ⟨⟨fun _ _ => rfl, rfl, rfl⟩, ?_⟩
        rw [State.setCall, calls_lockOne]
        exact named_set hi rfl
      · cases hs
        refine ⟨⟨fun _ _ => rfl, rfl, rfl⟩, ?_⟩
        rw [State.setCall, calls_lockOne]
        exact named_set hi rfl
  | _ => simp [hstage] at hs

end Broker

/-! ### The lease -/

namespace ProcessQueue

def belief (p : ProcessQueue) : Belief Text :=
  ⟨p.clientId, p.locked && !p.dropped, p.lastLockTimestamp⟩

lemma valid_belief {cfg : Config} {now : ℤ} {p : ProcessQueue} :
    p.belief.Valid cfg.clientLockMaxLiveTime now ↔ p.isConsumed cfg now = true := by
  simp only [belief, Belief.Valid, isConsumed, isLockExpired, Bool.and_eq_true, Bool.not_eq_true',
    decide_eq_false_iff_not, not_lt]
  tauto

end ProcessQueue

/-- The lock of the queue as a lease. -/
def System.lease (cfg : Config) (s : System) : Lease Text ℕ where
  now := s.now
  holder := (s.broker.entry cfg.group cfg.mq).map fun e => (e.clientId, e.lastUpdateTimestamp)
  grants := s.grants
  beliefs := s.processQueues.map ProcessQueue.belief

/-- What the numbers in a system refer to. -/
structure Good (s : System) : Prop where
  apart : Apart s.broker
  granted : ∀ i, ∀ g ∈ s.grants i, ∃ c : Call, s.broker.calls[i]? = some c ∧ c.clientId = g.1
  noting : ∀ {i k}, (i, k) ∈ s.noting → ∃ (c : Call) (p : ProcessQueue),
    s.broker.calls[i]? = some c ∧ s.processQueues[k]? = some p ∧ c.clientId = p.clientId

section Refinement

variable {cfg : Config} {s s' : System}

/-- The steps of a lease. -/
abbrev leaseStep (cfg : Config) : Lease Text ℕ → Op Text ℕ → Option (Lease Text ℕ) :=
  Lease.step cfg.brokerLockMaxLiveTime cfg.clientLockMaxLiveTime

lemma run_op {l l' : Lease Text ℕ} (op : Op Text ℕ) (h : leaseStep cfg l op = some l') :
    ∃ ops, run (leaseStep cfg) l ops = some l' :=
  ⟨[op], run_cons.mpr ⟨l', h, rfl⟩⟩

lemma lease_broker {b : State} {grants : ℕ → Option (Text × ℤ)} {holder : Option (Text × ℤ)}
    (hnow : b.currentTimeMillis = s.now)
    (hholder : (b.entry cfg.group cfg.mq).map (fun e => (e.clientId, e.lastUpdateTimestamp)) =
      holder) :
    { s.lease cfg with holder := holder, grants := grants } =
      ({ s with broker := b, grants := grants } : System).lease cfg := by
  simp only [System.lease, System.now, hholder, hnow]

lemma lease_of_alike {b : State} (h : Alike s.broker b) :
    ∃ ops, run (leaseStep cfg) (s.lease cfg) ops =
      some (({ s with broker := b } : System).lease cfg) := by
  refine ⟨[], ?_⟩
  rw [run_nil, ← lease_broker h.now rfl, h.entry]
  rfl

lemma lease_refresh {i n : ℕ} {c : Call} {mqs : List MessageQueue} {b : State}
    (hok : Timely cfg s (.broker (.refresh i))) (hi : s.broker.calls[i]? = some c)
    (hstage : c.stage = .refreshing n mqs) (hb : Alike (s.broker.setTimestamp n) b) :
    ∃ ops, run (leaseStep cfg) (s.lease cfg) ops =
      some (({ s with broker := b, grants := s.note (s.event cfg (.refresh i)) } :
        System).lease cfg) := by
  have hevent : s.event cfg (.refresh i) =
      if c.group = cfg.group ∧ c.lockedMqs.getLast? = some cfg.mq then
        some (.granted i c.clientId) else none := by
    simp only [System.event, hi, Option.bind_some, hstage]
  have hnow : b.currentTimeMillis = s.now := hb.now
  have hentry : b.entry cfg.group cfg.mq =
      if s.broker.find cfg.group cfg.mq = some n then
        (s.broker.entry cfg.group cfg.mq).map fun e => { e with lastUpdateTimestamp := s.now }
      else s.broker.entry cfg.group cfg.mq := by
    rw [hb.entry]
    split_ifs with hfind
    · have hfind' : (s.broker.setTimestamp n).find cfg.group cfg.mq = some n := hfind
      rw [entry_of_find hfind', entry_of_find hfind, getElem?_setTimestamp_self]
      rfl
    · rw [State.entry, State.entry]
      change (s.broker.find cfg.group cfg.mq).bind _ = _
      cases hj : s.broker.find cfg.group cfg.mq with
      | none => rfl
      | some j =>
        rw [Option.bind_some, Option.bind_some]
        exact getElem?_setTimestamp_of_ne fun heq => hfind (heq ▸ hj)
  rw [Timely, hevent] at hok
  rw [hevent]
  by_cases hours : c.group = cfg.group ∧ c.lockedMqs.getLast? = some cfg.mq
  · rw [if_pos hours] at hok ⊢
    obtain ⟨hfind, e, he, hname⟩ := hok c hi n mqs hstage
    have hold : s.broker.entry cfg.group cfg.mq = some e := by
      rw [entry_of_find hfind]
      exact he
    rw [if_pos hfind, hold, Option.map_some, hname] at hentry
    refine run_op (.grant i c.clientId) ?_
    rw [leaseStep, Lease.step, if_pos]
    · exact congrArg some (lease_broker hnow (by rw [hentry]; rfl))
    · intro h hh
      rw [System.lease, hold, Option.map_some, Option.mem_some_iff] at hh
      exact .inl (hh ▸ hname)
  · rw [if_neg hours]
    by_cases hfind : s.broker.find cfg.group cfg.mq = some n
    · rw [if_pos hfind] at hentry
      refine run_op .renew (congrArg some (lease_broker hnow ?_))
      rw [hentry, System.lease, Option.map_map, Option.map_map]
      rfl
    · rw [if_neg hfind] at hentry
      exact ⟨[], congrArg some (lease_broker hnow (by rw [hentry]))⟩

lemma lease_turn {i : ℕ} {c : Call} {mq : MessageQueue} {mqs : List MessageQueue} {b : State}
    (hgood : Good s) (hok : Timely cfg s (.broker (.turn i)))
    (hi : s.broker.calls[i]? = some c) (hstage : c.stage = .locked (mq :: mqs))
    (hb : Alike (if c.method = .unlockBatch then s.broker.unlockOne c.group mq c.clientId
      else (s.broker.lockOne cfg.brokerLockMaxLiveTime c.group mq c.clientId).1) b) :
    Apart b ∧ ∃ ops, run (leaseStep cfg) (s.lease cfg) ops =
      some (({ s with broker := b, grants := s.note (s.event cfg (.turn i)) } :
        System).lease cfg) := by
  obtain ⟨hapU, hnowU, hotherU, hentryU⟩ := unlockOne_spec hgood.apart c.group c.clientId mq
  obtain ⟨hapL, hnowL, hotherL, hentryL⟩ :=
    lockOne_spec hgood.apart cfg.brokerLockMaxLiveTime c.group c.clientId mq
  by_cases hours : c.group = cfg.group ∧ mq = cfg.mq
  · obtain ⟨hgroup, rfl⟩ := hours
    by_cases hunlock : c.method = .unlockBatch
    · rw [if_pos hunlock] at hb
      rw [hgroup] at hb hentryU hapU hnowU
      refine ⟨hb.apart hapU, ?_⟩
      have hnow : b.currentTimeMillis = s.now := hb.now.trans hnowU
      have hentry := (hb.entry cfg.group cfg.mq).trans hentryU
      have hevent : s.event cfg (.turn i) =
          if (s.broker.entry cfg.group cfg.mq).any (·.clientId = c.clientId) then
            some (.released c.clientId) else none := by
        simp only [System.event, hi, Option.bind_some, hstage, hgroup, hunlock, and_self, if_true]
      rw [Timely, hevent] at hok
      rw [hevent]
      by_cases hname : (s.broker.entry cfg.group cfg.mq).any (·.clientId = c.clientId) = true
      · rw [if_pos hname] at hok ⊢
        refine run_op (.release c.clientId) ?_
        rw [leaseStep, Lease.step, if_pos]
        · refine congrArg some (lease_broker hnow ?_)
          rw [hentry, System.lease]
          cases s.broker.entry cfg.group cfg.mq with
          | none => rfl
          | some e =>
            simp only [Option.filter_some, Option.map_some]
            split_ifs <;> rfl
        · intro bl hbl hclient hvalid
          obtain ⟨p, hp, rfl⟩ := List.mem_map.mp hbl
          have := hok p hp hclient
          have hvalid := ProcessQueue.valid_belief.mp hvalid
          exact absurd (this.symm.trans hvalid) (by simp)
      · rw [if_neg hname]
        refine ⟨[], congrArg some (lease_broker hnow ?_)⟩
        have hsame : (s.broker.entry cfg.group cfg.mq).filter (fun e => e.clientId ≠ c.clientId) =
            s.broker.entry cfg.group cfg.mq := by
          cases he : s.broker.entry cfg.group cfg.mq with
          | none => rfl
          | some e =>
            rw [he, Option.any_some, decide_eq_true_eq] at hname
            exact Option.filter_some_pos (by simpa using hname)
        rw [hentry, hsame]
    · rw [if_neg hunlock] at hb
      rw [hgroup] at hb hentryL hapL hnowL
      refine ⟨hb.apart hapL, ?_⟩
      have hnow : b.currentTimeMillis = s.now := hb.now.trans hnowL
      have hevent : s.event cfg (.turn i) =
          if (s.broker.lockOne cfg.brokerLockMaxLiveTime cfg.group cfg.mq c.clientId).2 then
            some (.granted i c.clientId) else none := by
        simp only [System.event, hi, Option.bind_some, hstage, hgroup, hunlock, and_self, if_true,
          if_false]
      rw [hevent]
      by_cases hgot :
          (s.broker.lockOne cfg.brokerLockMaxLiveTime cfg.group cfg.mq c.clientId).2 = true
      · rw [if_pos hgot] at hentryL ⊢
        obtain ⟨hfree, hnew⟩ := hentryL
        refine run_op (.grant i c.clientId) ?_
        rw [leaseStep, Lease.step, if_pos]
        · exact congrArg some (lease_broker hnow (by rw [hb.entry, hnew]; rfl))
        · intro h hh
          obtain ⟨e, he, rfl⟩ := Option.map_eq_some_iff.mp hh
          exact hfree e he
      · rw [if_neg hgot] at hentryL ⊢
        exact ⟨[], congrArg some (lease_broker hnow (by rw [hb.entry, hentryL]))⟩
  · have hevent : s.event cfg (.turn i) = none := by
      simp only [System.event, hi, Option.bind_some, hstage, if_neg hours]
    have hne : ¬ (cfg.group = c.group ∧ cfg.mq = mq) := fun h => hours ⟨h.1.symm, h.2.symm⟩
    rw [hevent]
    by_cases hunlock : c.method = .unlockBatch
    · rw [if_pos hunlock] at hb
      refine ⟨hb.apart hapU, [], congrArg some (lease_broker (hb.now.trans hnowU) ?_)⟩
      rw [hb.entry, hotherU _ _ hne]
    · rw [if_neg hunlock] at hb
      refine ⟨hb.apart hapL, [], congrArg some (lease_broker (hb.now.trans hnowL) ?_)⟩
      rw [hb.entry, hotherL _ _ hne]

/-- A step of the broker is one of the lease, or none. -/
lemma lease_step_broker {a : RebalanceLock.Action} {b : State} (hgood : Good s)
    (hok : Timely cfg s (.broker a))
    (hs : RebalanceLock.step cfg.brokerLockMaxLiveTime s.broker a = some b) :
    Apart b ∧ Named s.broker.calls b.calls ∧
    ∃ ops, run (leaseStep cfg) (s.lease cfg) ops =
      some (({ s with broker := b, grants := s.note (s.event cfg a) } : System).lease cfg) := by
  obtain ⟨b', hact, rfl⟩ := Option.map_eq_some_iff.mp hs
  have hobserve := alike_observe cfg.brokerLockMaxLiveTime b'
  have hlater : ∀ grants, (System.mk (b'.observe cfg.brokerLockMaxLiveTime) s.processQueues
      s.noting grants).lease cfg = (System.mk b' s.processQueues s.noting grants).lease cfg :=
    fun _ => rfl
  rw [hlater]
  have hquiet : s.event cfg a = none → (∀ n, a ≠ .tick n) → (∀ i, a ≠ .refresh i) →
      (∀ i, a ≠ .turn i) → Apart (b'.observe cfg.brokerLockMaxLiveTime) ∧
        Named s.broker.calls (b'.observe cfg.brokerLockMaxLiveTime).calls ∧
        ∃ ops, run (leaseStep cfg) (s.lease cfg) ops =
          some (({ s with broker := b', grants := s.note (s.event cfg a) } : System).lease
            cfg) := by
    intro hevent htick hrefresh hturn
    obtain ⟨halike, hnamed⟩ := act_quiet hact htick hrefresh hturn
    rw [hevent]
    exact ⟨hobserve.apart (halike.apart hgood.apart), named_observe _ hnamed,
      lease_of_alike halike⟩
  cases a with
  | tick n =>
    cases hact
    exact ⟨hobserve.apart ⟨hgood.apart.lt, hgood.apart.inj⟩,
      named_observe _ fun i c hi => ⟨c, hi, rfl⟩, run_op (.tick n) rfl⟩
  | refresh i =>
    obtain ⟨c, n, mqs, hi, hstage, halike, hnamed⟩ := act_refresh hact
    have hapart : Apart (s.broker.setTimestamp n) :=
      hgood.apart.of_find_eq (fun _ _ => rfl) (by simp [State.setTimestamp])
    exact ⟨hobserve.apart (halike.apart hapart), named_observe _ hnamed,
      lease_refresh hok hi hstage halike⟩
  | turn i =>
    obtain ⟨c, mq, mqs, hi, hstage, halike, hnamed⟩ := act_turn hact
    obtain ⟨hapart, hlease⟩ := lease_turn hgood hok hi hstage halike
    exact ⟨hobserve.apart hapart, named_observe _ hnamed, hlease⟩
  | _ => exact hquiet rfl (by simp) (by simp) (by simp)

lemma answer_eq_some {i k : ℕ} {c : Call} {p : ProcessQueue} (h : s.answer cfg i k = some (c, p)) :
    s.broker.calls[i]? = some c ∧ s.processQueues[k]? = some p ∧ c.clientId = p.clientId := by
  obtain ⟨c', hc, h⟩ := Option.bind_eq_some_iff.mp h
  obtain ⟨p', hp, h⟩ := Option.bind_eq_some_iff.mp h
  split_ifs at h with hof
  obtain ⟨rfl, rfl⟩ := Prod.mk.inj (Option.some.inj h)
  exact ⟨hc, hp, hof.2.2⟩

/-- An answer that is noted in time is one of the lease. -/
lemma inTime {i k : ℕ} {c : Call} {p : ProcessQueue} (hgood : Good s)
    (hc : s.broker.calls[i]? = some c) (hp : s.processQueues[k]? = some p)
    (hclient : c.clientId = p.clientId)
    (hok : ∃ g ∈ s.grants i,
      s.now - g.2 ≤ (cfg.brokerLockMaxLiveTime : ℤ) - cfg.clientLockMaxLiveTime) :
    (s.lease cfg).InTime cfg.brokerLockMaxLiveTime cfg.clientLockMaxLiveTime i k := by
  obtain ⟨g, hg, hle⟩ := hok
  obtain ⟨c', hc', hname⟩ := hgood.granted i g hg
  rw [hc, Option.some.injEq] at hc'
  subst hc'
  refine ⟨g, hg, p.belief, ?_, hclient.symm.trans hname, hle⟩
  rw [System.lease, Option.mem_def, List.getElem?_map, hp, Option.map_some]

lemma map_belief_modify {ps : List ProcessQueue} {k : ℕ} {f : ProcessQueue → ProcessQueue}
    {g : Belief Text → Belief Text}
    (h : ∀ p, ps[k]? = some p → (f p).belief = g p.belief) :
    (ps.modify k f).map ProcessQueue.belief = (ps.map ProcessQueue.belief).modify k g := by
  apply List.ext_getElem?
  intro j
  simp only [List.getElem?_map, List.getElem?_modify]
  cases hj : ps[j]? with
  | none => rfl
  | some p =>
    by_cases hk : k = j
    · subst hk
      simp [h p hj]
    · simp [hk]

lemma lease_modify {k : ℕ} {f : ProcessQueue → ProcessQueue} {g : Belief Text → Belief Text}
    (h : ∀ p, s.processQueues[k]? = some p → (f p).belief = g p.belief) (noting : List (ℕ × ℕ)) :
    ({ s.modify k f with noting := noting } : System).lease cfg = (s.lease cfg).modify k g := by
  simp only [System.lease, System.modify, Lease.modify, map_belief_modify h]
  rfl

/-- **A step** of the system is one of the lease, or none. -/
lemma lease_step {a : Action} (hgood : Good s) (hok : Timely cfg s a)
    (hs : s.step cfg a = some s') :
    ∃ ops, run (leaseStep cfg) (s.lease cfg) ops = some (s'.lease cfg) := by
  cases a with
  | broker a =>
    obtain ⟨b, hb, rfl⟩ := Option.map_eq_some_iff.mp hs
    exact (lease_step_broker hgood hok hb).2.2
  | newProcessQueue clientId =>
    cases hs
    refine run_op (.believe clientId) (congrArg some ?_)
    simp only [System.lease, Lease.believe, List.map_append]
    rfl
  | setDropped k =>
    cases hs
    refine run_op (.deactivate k) (congrArg some (lease_modify (fun p _ => ?_) _).symm)
    simp [ProcessQueue.belief]
  | setLocked i k =>
    obtain ⟨⟨c, p⟩, hanswer, hs⟩ := Option.bind_eq_some_iff.mp hs
    obtain ⟨hc, hp, hclient⟩ := answer_eq_some hanswer
    obtain ⟨-, hs⟩ := Option.ite_none_right_eq_some.mp hs
    cases hs
    by_cases hdropped : p.dropped = true
    · -- a process queue that is dropped stays what it is
      refine ⟨[], congrArg some ?_⟩
      have hbelief : ∀ p', s.processQueues[k]? = some p' →
          ({ p' with locked := true } : ProcessQueue).belief = id p'.belief := by
        intro p' hp'
        rw [hp, Option.some.injEq] at hp'
        subst hp'
        simp [ProcessQueue.belief, hdropped]
      have hsame : _ = (s.lease cfg).modify k id := lease_modify hbelief ((i, k) :: s.noting)
      rw [hsame, Lease.modify, List.modify_id]
    · refine run_op (.activate i k) ?_
      rw [leaseStep, Lease.step, if_pos (inTime hgood hc hp hclient hok)]
      refine congrArg some (lease_modify (fun p' hp' => ?_) _).symm
      rw [hp, Option.some.injEq] at hp'
      subst hp'
      simp [ProcessQueue.belief, hdropped]
  | setLastLockTimestamp i k =>
    obtain ⟨hmem, hs⟩ := Option.ite_none_right_eq_some.mp hs
    cases hs
    obtain ⟨c, p, hc, hp, hclient⟩ := hgood.noting hmem
    refine run_op (.confirm i k) ?_
    rw [leaseStep, Lease.step, if_pos (inTime hgood hc hp hclient hok)]
    exact congrArg some (lease_modify (fun _ _ => rfl) _).symm
  | setUnlocked i k =>
    obtain ⟨⟨c, p⟩, hanswer, hs⟩ := Option.bind_eq_some_iff.mp hs
    obtain ⟨-, hs⟩ := Option.ite_none_right_eq_some.mp hs
    cases hs
    refine run_op (.deactivate k) (congrArg some (lease_modify (fun p _ => ?_) _).symm)
    simp [ProcessQueue.belief]

/-! ### Runs -/

lemma Good.modify (h : Good s) {k : ℕ} {f : ProcessQueue → ProcessQueue} {noting : List (ℕ × ℕ)}
    (hf : ∀ p, (f p).clientId = p.clientId)
    (hnoting : ∀ {i k}, (i, k) ∈ noting → ∃ (c : Call) (p : ProcessQueue),
      s.broker.calls[i]? = some c ∧ s.processQueues[k]? = some p ∧ c.clientId = p.clientId) :
    Good { s.modify k f with noting := noting } where
  apart := h.apart
  granted := h.granted
  noting {i j} hmem := by
    obtain ⟨c, p, hc, hp, hclient⟩ := hnoting hmem
    by_cases hk : k = j
    · subst hk
      exact ⟨c, f p, hc, by simp [System.modify, hp], hclient.trans (hf p).symm⟩
    · exact ⟨c, p, hc, by simp [System.modify, hk, hp], hclient⟩

lemma Good.broker (h : Good s) {a : RebalanceLock.Action} {b : State} (hapart : Apart b)
    (hnamed : Named s.broker.calls b.calls) :
    Good { s with broker := b, grants := s.note (s.event cfg a) } where
  apart := hapart
  granted i g hg := by
    have hold : ∀ c : Call, s.broker.calls[i]? = some c → c.clientId = g.1 →
        ∃ c' : Call, b.calls[i]? = some c' ∧ c'.clientId = g.1 := by
      intro c hc hname
      obtain ⟨c', hc', hname'⟩ := hnamed i c hc
      exact ⟨c', hc', hname'.trans hname⟩
    have hgranted : ∀ j clientId, s.event cfg a = some (.granted j clientId) →
        ∃ c : Call, s.broker.calls[j]? = some c ∧ c.clientId = clientId := by
      intro j clientId hevent
      unfold System.event at hevent
      split at hevent
      · obtain ⟨c, hc, hevent⟩ := Option.bind_eq_some_iff.mp hevent
        split at hevent
        · split_ifs at hevent
          cases hevent
          exact ⟨c, hc, rfl⟩
        · cases hevent
      · obtain ⟨c, hc, hevent⟩ := Option.bind_eq_some_iff.mp hevent
        split at hevent
        · split_ifs at hevent <;> cases hevent
          exact ⟨c, hc, rfl⟩
        · cases hevent
      · cases hevent
    dsimp only at hg
    cases hevent : s.event cfg a with
    | none =>
      rw [hevent] at hg
      obtain ⟨c, hc, hname⟩ := h.granted i g hg
      exact hold c hc hname
    | some e =>
      rw [hevent] at hg
      cases e with
      | granted j clientId =>
        by_cases hj : i = j
        · subst hj
          rw [System.note, Function.update_self, Option.mem_some_iff] at hg
          obtain ⟨c, hc, hname⟩ := hgranted i clientId hevent
          exact hold c hc (hg ▸ hname)
        · rw [System.note, Function.update_of_ne hj] at hg
          obtain ⟨c, hc, hname⟩ := h.granted i g hg
          exact hold c hc hname
      | released clientId =>
        obtain ⟨c, hc, hname⟩ := h.granted i g (Option.mem_filter_iff.mp hg).1
        exact hold c hc hname
  noting hmem := by
    obtain ⟨c, p, hc, hp, hclient⟩ := h.noting hmem
    obtain ⟨c', hc', hname⟩ := hnamed _ c hc
    exact ⟨c', p, hc', hp, hname.trans hclient⟩

lemma good_step {a : Action} (h : Good s) (hok : Timely cfg s a) (hs : s.step cfg a = some s') :
    Good s' := by
  cases a with
  | broker a =>
    obtain ⟨b, hb, rfl⟩ := Option.map_eq_some_iff.mp hs
    obtain ⟨hapart, hnamed, -⟩ := lease_step_broker h hok hb
    exact h.broker hapart hnamed
  | newProcessQueue clientId =>
    cases hs
    refine ⟨h.apart, h.granted, fun {i k} hmem => ?_⟩
    obtain ⟨c, p, hc, hp, hclient⟩ := h.noting hmem
    have hlt := (List.getElem?_eq_some_iff.mp hp).1
    exact ⟨c, p, hc, by rw [List.getElem?_append_left hlt, hp], hclient⟩
  | setDropped k =>
    cases hs
    exact h.modify (fun _ => rfl) h.noting
  | setLocked i k =>
    obtain ⟨⟨c, p⟩, hanswer, hs⟩ := Option.bind_eq_some_iff.mp hs
    obtain ⟨-, hs⟩ := Option.ite_none_right_eq_some.mp hs
    cases hs
    refine h.modify (fun _ => rfl) fun {i' k'} hmem => ?_
    rcases List.mem_cons.mp hmem with heq | hmem
    · obtain ⟨rfl, rfl⟩ := Prod.mk.inj heq
      exact ⟨c, p, answer_eq_some hanswer⟩
    · exact h.noting hmem
  | setLastLockTimestamp i k =>
    obtain ⟨-, hs⟩ := Option.ite_none_right_eq_some.mp hs
    cases hs
    exact h.modify (fun _ => rfl) fun hmem => h.noting (List.mem_of_mem_erase hmem)
  | setUnlocked i k =>
    obtain ⟨⟨c, p⟩, -, hs⟩ := Option.bind_eq_some_iff.mp hs
    obtain ⟨-, hs⟩ := Option.ite_none_right_eq_some.mp hs
    cases hs
    exact h.modify (fun _ => rfl) h.noting

lemma good_new (currentTimeMillis : ℤ) : Good (newSystem currentTimeMillis) where
  apart := ⟨fun h => by simp [newSystem, newState, State.find] at h,
    fun h => by simp [newSystem, newState, State.find] at h⟩
  granted i g hg := by cases hg
  noting hmem := absurd hmem List.not_mem_nil

/-- The system refines the lease: every run of it is one of the lease. -/
lemma run_lease {currentTimeMillis : ℤ} {as : List Action}
    (hok : Meets (System.step cfg) (Timely cfg) (newSystem currentTimeMillis) as)
    (hr : run (System.step cfg) (newSystem currentTimeMillis) as = some s) :
    ∃ ops, run (leaseStep cfg) (Lease.new currentTimeMillis) ops = some (s.lease cfg) := by
  have hnew : Good (newSystem currentTimeMillis) ∧ ∃ ops, run (leaseStep cfg)
      (Lease.new currentTimeMillis) ops = some ((newSystem currentTimeMillis).lease cfg) :=
    ⟨good_new currentTimeMillis, [], rfl⟩
  have hstep : ∀ (s : System) (a : Action) (s' : System), (Good s ∧ ∃ ops, run (leaseStep cfg)
      (Lease.new currentTimeMillis) ops = some (s.lease cfg)) → Timely cfg s a →
      s.step cfg a = some s' → Good s' ∧ ∃ ops, run (leaseStep cfg)
        (Lease.new currentTimeMillis) ops = some (s'.lease cfg) := by
    intro s a s' h hok hs
    obtain ⟨ops, hops⟩ := h.2
    obtain ⟨ops', hops'⟩ := lease_step h.1 hok hs
    exact ⟨good_step h.1 hok hs, ops ++ ops', run_append.mpr ⟨_, hops, hops'⟩⟩
  exact (run_invariant hstep hnew hok hr).2

/-- **One consumer at a time.** However requests, answers and the steps of the broker interleave, as
long as every step is timely: the process queues that messages of the queue are taken from at the
same time belong to one client. -/
theorem consumed_by_one {currentTimeMillis : ℤ} {as : List Action}
    (hok : Meets (System.step cfg) (Timely cfg) (newSystem currentTimeMillis) as)
    (hr : run (System.step cfg) (newSystem currentTimeMillis) as = some s) {p p' : ProcessQueue}
    (hp : p ∈ s.processQueues) (hp' : p' ∈ s.processQueues) (hc : p.isConsumed cfg s.now = true)
    (hc' : p'.isConsumed cfg s.now = true) : p.clientId = p'.clientId := by
  obtain ⟨ops, hops⟩ := run_lease hok hr
  exact Lease.run_exclusive hops (List.mem_map_of_mem hp) (List.mem_map_of_mem hp')
    (ProcessQueue.valid_belief.mpr hc) (ProcessQueue.valid_belief.mpr hc')

end Refinement

/-! ### A queue that changes hands -/

def timely (cfg : Config) (s : System) : Action → Bool
  | .broker a =>
    match s.event cfg a with
    | some (.granted i _) => (s.broker.calls[i]?).all fun c =>
        match c.stage with
        | .refreshing entry _ => decide (s.broker.find cfg.group cfg.mq = some entry) &&
            (s.broker.entries[entry]?).any (·.clientId = c.clientId)
        | _ => true
    | some (.released clientId) =>
      s.processQueues.all fun p => p.clientId ≠ clientId || !p.isConsumed cfg s.now
    | none => true
  | .setLocked i _ | .setLastLockTimestamp i _ => (s.grants i).any fun g =>
      s.now - g.2 ≤ (cfg.brokerLockMaxLiveTime : ℤ) - cfg.clientLockMaxLiveTime
  | _ => true

lemma timely_of {cfg : Config} {s : System} {a : Action} (h : timely cfg s a = true) :
    Timely cfg s a := by
  cases a with
  | broker a =>
    rw [timely] at h
    rw [Timely]
    cases hevent : s.event cfg a with
    | none => trivial
    | some e =>
      rw [hevent] at h
      cases e with
      | granted i clientId =>
        intro c hc entry mqs hstage
        have hcur := (Option.all_eq_true _ _).mp h c hc
        rw [hstage, Bool.and_eq_true, decide_eq_true_eq, Option.any_eq_true] at hcur
        obtain ⟨hfind, e, he, hname⟩ := hcur
        exact ⟨hfind, e, he, of_decide_eq_true hname⟩
      | released clientId =>
        intro p hp hname
        have := List.all_eq_true.mp h p hp
        simpa [hname] using this
  | setLocked i k =>
    obtain ⟨g, hg, hle⟩ := (Option.any_eq_true _ _).mp h
    exact ⟨g, hg, of_decide_eq_true hle⟩
  | setLastLockTimestamp i k =>
    obtain ⟨g, hg, hle⟩ := (Option.any_eq_true _ _).mp h
    exact ⟨g, hg, of_decide_eq_true hle⟩
  | _ => trivial

def ofQueue : Config := ⟨['g'], queue, 60000, 30000⟩

/-- A client locks the queue, renews its lock, and loses the queue to another one. -/
def handOver : List Action := List.flatten [
  [.broker (.call .tryLockBatch ['g'] [queue] ['A'])], (slowPath 0).map .broker,
  [.newProcessQueue ['A'], .setLocked 0 0, .setLastLockTimestamp 0 0, .broker (.tick 20000),
    .broker (.call .tryLockBatch ['g'] [queue] ['A']), .broker (.check 1), .broker (.refresh 1),
    .broker (.check 1), .broker (.ret 1), .setLocked 1 0, .setLastLockTimestamp 1 0,
    .setDropped 0, .broker (.call .unlockBatch ['g'] [queue] ['A']),
    .broker (.lockInterruptibly 2), .broker (.turn 2), .broker (.unlock 2), .broker (.ret 2),
    .newProcessQueue ['B'], .broker (.call .tryLockBatch ['g'] [queue] ['B'])],
  (slowPath 3).map .broker, [.setLocked 3 1, .setLastLockTimestamp 3 1]]

theorem consumed_by_one_handOver :
    ∃ s, run (System.step ofQueue) (newSystem 0) handOver = some s ∧
      s.processQueues.map (fun p => (p.clientId, p.isConsumed ofQueue s.now)) =
        [(['A'], false), (['B'], true)] ∧
      ∀ p ∈ s.processQueues, ∀ p' ∈ s.processQueues, p.isConsumed ofQueue s.now = true →
        p'.isConsumed ofQueue s.now = true → p.clientId = p'.clientId := by
  have hrun : (run (System.step ofQueue) (newSystem 0) handOver).map (fun s =>
      s.processQueues.map fun p => (p.clientId, p.isConsumed ofQueue s.now)) =
        some [(['A'], false), (['B'], true)] := by
    decide
  obtain ⟨s, hs, hlast⟩ := Option.map_eq_some_iff.mp hrun
  have hok : checks (System.step ofQueue) (timely ofQueue) (newSystem 0) handOver := by
    decide
  exact ⟨s, hs, hlast, fun p hp p' hp' =>
    consumed_by_one (meets_of_checks (fun _ _ => timely_of) hok) hs hp hp'⟩

end CloudMQ.QueueLocks
