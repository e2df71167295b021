import CloudMQ.ConsumerOffsets
import CloudMQ.Lists
import CloudMQ.Runs

/-!
Commits of offsets that run at the same time.

A commit gets the map of its key from the table and then puts: into that map, or a new map into
the table when it got none.
-/

namespace CloudMQ.OffsetCommits

open CloudMQ.Utf8 CloudMQ.Tables CloudMQ.ConsumerOffsets CloudMQ.Lists CloudMQ.Runs

/-- A commit: what it got, and when it got and put. -/
structure Call where
  group : Text
  topic : Text
  queueId : Int32
  offset : Int64
  map : Option ℕ
  begun : ℕ
  ended : Option ℕ := none

def Call.key (c : Call) : Text := topicAtGroup c.topic c.group

structure State where
  manager : ConsumerOffsetManager
  calls : List Call
  clock : ℕ

def newState : State := ⟨{}, [], 0⟩

inductive Action
  | get (group topic : Text) (queueId : Int32) (offset : Int64)
  | put (i : ℕ)

def step (s : State) : Action → Option State
  | .get group topic queueId offset =>
    some { s with
      calls := s.calls ++ [{
        group, topic, queueId, offset
        map := s.manager.offsetTable.lookup (topicAtGroup topic group)
        begun := s.clock }]
      clock := s.clock + 1 }
  | .put i =>
    match s.calls[i]? with
    | some c =>
      if c.ended.isSome then none
      else some {
        manager := s.manager.putOffset c.key c.map c.queueId c.offset
        calls := s.calls.set i { c with ended := some s.clock }
        clock := s.clock + 1 }
    | none => none

/-! ### The promise -/

/-- Two commits for the same queue of a topic and group. -/
def SameQueue (c c' : Call) : Prop :=
  c'.group = c.group ∧ c'.topic = c.topic ∧ c'.queueId = c.queueId

/-- The second commit began after the first one had ended. -/
def Follows (c c' : Call) : Prop := ∃ e, c.ended = some e ∧ e < c'.begun

/-- When all commits have ended, what is read for a queue is there, and it is the value of a commit
for that queue which no other one follows. -/
def Sound (s : State) : Prop :=
  (∀ c ∈ s.calls, c.ended ≠ none) → ∀ c ∈ s.calls,
    s.manager.find (topicAtGroup c.topic c.group) c.queueId ≠ none ∧
    ∃ c' ∈ s.calls, SameQueue c c' ∧
      s.manager.queryOffset c.group c.topic c.queueId = c'.offset ∧
      ∀ c'' ∈ s.calls, SameQueue c c'' → ¬ Follows c' c''

/-- Different names have different keys; a commit that got no map puts its new one where the table
holds no other queue of the key, and no other commit has got a map of the key to put into. -/
def Alone (s : State) : Action → Prop
  | .get group topic _ _ =>
    ∀ c ∈ s.calls, c.key = topicAtGroup topic group → c.group = group ∧ c.topic = topic
  | .put i => ∀ c, s.calls[i]? = some c → c.map = none →
    (∀ queueId, s.manager.find c.key queueId ≠ none → queueId = c.queueId) ∧
    ∀ (j : ℕ) c', s.calls[j]? = some c' → c'.ended = none → c'.key = c.key → c'.map = none

/-! ### The invariant -/

/-- The commit put last of all for its queue. -/
def Last (s : State) (c : Call) : Prop :=
  ∃ e, c.ended = some e ∧ ∀ (j : ℕ) c', s.calls[j]? = some c' → c'.key = c.key →
    c'.queueId = c.queueId → ∀ e', c'.ended = some e' → e' ≤ e

structure Inv (s : State) : Prop where
  valid : s.manager.Valid
  apart : ∀ key key' map, s.manager.offsetTable.lookup key = some map →
    s.manager.offsetTable.lookup key' = some map → key = key'
  got : ∀ (j : ℕ) c, s.calls[j]? = some c → c.ended = none → ∀ map, c.map = some map →
    s.manager.offsetTable.lookup c.key = some map
  begun : ∀ (j : ℕ) c, s.calls[j]? = some c → c.begun < s.clock
  ended : ∀ (j : ℕ) c, s.calls[j]? = some c → ∀ e, c.ended = some e → e < s.clock ∧ c.begun ≤ e
  names : ∀ (j : ℕ) (c : Call) (j' : ℕ) (c' : Call), s.calls[j]? = some c →
    s.calls[j']? = some c' → c'.key = c.key → c'.group = c.group ∧ c'.topic = c.topic
  last : ∀ (j : ℕ) c, s.calls[j]? = some c → c.ended ≠ none → ∃ (j' : ℕ) (c' : Call),
    s.calls[j']? = some c' ∧ c'.key = c.key ∧ c'.queueId = c.queueId ∧
    s.manager.find c.key c.queueId = some c'.offset ∧ Last s c'

lemma inv_new : Inv newState where
  valid := fun _ _ h => by cases h
  apart := fun _ _ _ h => by cases h
  got := fun _ _ h => by cases h
  begun := fun _ _ h => by cases h
  ended := fun _ _ h => by cases h
  names := fun _ _ _ _ h => by cases h
  last := fun _ _ h => by cases h

section

variable {s s' : State}

lemma Inv.sound (h : Inv s) : Sound s := by
  intro hall c hc
  obtain ⟨j, hj⟩ := List.mem_iff_getElem?.mp hc
  obtain ⟨j', c', hj', hkey, hqueue, hfind, e, hended, hlast⟩ := h.last j c hj (hall c hc)
  have hnames := h.names j c j' c' hj hj' hkey
  have hfind' : s.manager.find (topicAtGroup c.topic c.group) c.queueId = some c'.offset := hfind
  refine ⟨by rw [hfind']; exact Option.some_ne_none _, c', List.mem_of_getElem? hj',
    ⟨hnames.1, hnames.2, hqueue⟩, ?_, ?_⟩
  · rw [ConsumerOffsetManager.queryOffset, hfind']
    rfl
  · rintro c'' hc'' ⟨hgroup, htopic, hqueue'⟩ ⟨e', hended', hlt⟩
    obtain ⟨j'', hj''⟩ := List.mem_iff_getElem?.mp hc''
    obtain ⟨e'', he''⟩ := Option.ne_none_iff_exists'.mp (hall c'' hc'')
    have hkey' : c''.key = c'.key := by
      rw [hkey, Call.key, Call.key, hgroup, htopic]
    have hle := hlast j'' c'' hj'' hkey' (hqueue'.trans hqueue.symm) e'' he''
    have hbegun := (h.ended j'' c'' hj'' e'' he'').2
    rw [hended] at hended'
    cases hended'
    omega

/-- What a put changes: the offset of its queue. -/
lemma Inv.find_put (h : Inv s) {i : ℕ} {c : Call} (hc : s.calls[i]? = some c)
    (hopen : c.ended = none) (hok : Alone s (.put i)) (key : Text) (queueId : Int32) :
    (s.manager.putOffset c.key c.map c.queueId c.offset).find key queueId =
      if key = c.key ∧ queueId = c.queueId then some c.offset else s.manager.find key queueId := by
  cases hmap : c.map with
  | none =>
    rw [ConsumerOffsetManager.find_putOffset_none h.valid]
    by_cases hkey : key = c.key
    · rw [if_pos hkey]
      by_cases hqueue : queueId = c.queueId
      · rw [if_pos hqueue, if_pos ⟨hkey, hqueue⟩]
      · rw [if_neg hqueue, if_neg fun hboth => hqueue hboth.2]
        by_contra hne
        exact hqueue ((hok c hc hmap).1 queueId fun hnone => hne (by rw [hkey, hnone]))
    · rw [if_neg hkey, if_neg fun hboth => hkey hboth.1]
  | some map =>
    rw [ConsumerOffsetManager.find_putOffset_some h.valid]
    have hlookup := h.got i c hc hopen map hmap
    refine if_congr (and_congr_left' ⟨fun hkey => h.apart _ _ _ hkey hlookup, ?_⟩) rfl rfl
    exact fun hkey => hkey ▸ hlookup

/-- The keys keep their maps, but for a new map of the key. -/
lemma lookup_put {c : Call} {key : Text} {map : ℕ}
    (hlookup : (s.manager.putOffset c.key c.map c.queueId c.offset).offsetTable.lookup key =
      some map) :
    s.manager.offsetTable.lookup key = some map ∨
      (c.map = none ∧ key = c.key ∧ map = s.manager.maps.length) := by
  cases hmap : c.map with
  | none =>
    rw [hmap, ConsumerOffsetManager.putOffset, lookup_insert_ite] at hlookup
    split_ifs at hlookup with hkey
    · cases hlookup
      exact .inr ⟨rfl, hkey, rfl⟩
    · exact .inl hlookup
  | some map' =>
    rw [hmap] at hlookup
    exact .inl hlookup

lemma Inv.put (h : Inv s) {i : ℕ} {c : Call} (hc : s.calls[i]? = some c) (hopen : c.ended = none)
    (hok : Alone s (.put i)) :
    Inv {
      manager := s.manager.putOffset c.key c.map c.queueId c.offset
      calls := s.calls.set i { c with ended := some s.clock }
      clock := s.clock + 1 } := by
  have hfind := h.find_put hc hopen hok
  have hset : (s.calls.set i { c with ended := some s.clock })[i]? =
      some { c with ended := some s.clock } :=
    getElem?_set_of_getElem? hc
  refine ⟨h.valid.putOffset, ?_, ?_, ?_, ?_, ?_, ?_⟩
  · intro key key' map hkey hkey'
    rcases lookup_put hkey with h1 | ⟨-, rfl, rfl⟩
    · rcases lookup_put hkey' with h2 | ⟨-, -, rfl⟩
      · exact h.apart key key' map h1 h2
      · exact absurd (h.valid _ _ h1) (lt_irrefl _)
    · rcases lookup_put hkey' with h2 | ⟨-, rfl, -⟩
      · exact absurd (h.valid _ _ h2) (lt_irrefl _)
      · rfl
  · intro j c' hj hopen' map hmap
    rcases getElem?_set_cases hj with ⟨-, rfl⟩ | ⟨-, hj⟩
    · cases hopen'
    · have hold := h.got j c' hj hopen' map hmap
      cases hcmap : c.map with
      | none =>
        rw [ConsumerOffsetManager.putOffset, lookup_insert_ite, if_neg]
        · exact hold
        · intro hkey
          rw [(hok c hc hcmap).2 j c' hj hopen' hkey] at hmap
          cases hmap
      | some _ => exact hold
  · intro j c' hj
    rcases getElem?_set_cases hj with ⟨-, rfl⟩ | ⟨-, hj⟩
    · exact Nat.lt_succ_of_lt (h.begun i c hc)
    · exact Nat.lt_succ_of_lt (h.begun j c' hj)
  · intro j c' hj e he
    rcases getElem?_set_cases hj with ⟨-, rfl⟩ | ⟨-, hj⟩
    · cases he
      exact ⟨Nat.lt_succ_self _, (h.begun i c hc).le⟩
    · exact (h.ended j c' hj e he).imp_left Nat.lt_succ_of_lt
  · intro j c₁ j' c₂ hj hj' hkey
    rcases getElem?_set_cases hj with ⟨-, rfl⟩ | ⟨-, hj⟩ <;>
      rcases getElem?_set_cases hj' with ⟨-, rfl⟩ | ⟨-, hj'⟩
    · exact ⟨rfl, rfl⟩
    · exact h.names i c j' c₂ hc hj' hkey
    · exact h.names j c₁ i c hj hc hkey
    · exact h.names j c₁ j' c₂ hj hj' hkey
  · intro j c' hj hended
    by_cases hsame : c'.key = c.key ∧ c'.queueId = c.queueId
    · -- the call itself has put last
      refine ⟨i, _, hset, hsame.1.symm, hsame.2.symm, ?_, s.clock, rfl, ?_⟩
      · rw [hfind, if_pos hsame]
      · intro j₂ c₂ hj₂ _ _ e₂ he₂
        rcases getElem?_set_cases hj₂ with ⟨-, rfl⟩ | ⟨-, hj₂⟩
        · cases he₂
          exact le_rfl
        · exact (h.ended j₂ c₂ hj₂ e₂ he₂).1.le
    · rcases getElem?_set_cases hj with ⟨-, rfl⟩ | ⟨-, hj⟩
      · exact absurd ⟨rfl, rfl⟩ hsame
      · obtain ⟨j₁, c₁, hj₁, hkey, hqueue, hold, e, he, hlast⟩ := h.last j c' hj hended
        have hne : i ≠ j₁ := by
          rintro rfl
          rw [hc, Option.some.injEq] at hj₁
          rw [← hj₁, hopen] at he
          cases he
        refine ⟨j₁, c₁, ?_, hkey, hqueue, ?_, e, he, ?_⟩
        · rw [List.getElem?_set_ne hne]
          exact hj₁
        · rw [hfind, if_neg hsame]
          exact hold
        · intro j₂ c₂ hj₂ hkey₂ hqueue₂ e₂ he₂
          rcases getElem?_set_cases hj₂ with ⟨-, rfl⟩ | ⟨-, hj₂⟩
          · exact absurd ⟨hkey.symm.trans hkey₂.symm, hqueue.symm.trans hqueue₂.symm⟩ hsame
          · exact hlast j₂ c₂ hj₂ hkey₂ hqueue₂ e₂ he₂

lemma Inv.get (h : Inv s) {group topic : Text} {queueId : Int32} {offset : Int64}
    (hok : Alone s (.get group topic queueId offset)) :
    Inv { s with
      calls := s.calls ++ [{
        group, topic, queueId, offset
        map := s.manager.offsetTable.lookup (topicAtGroup topic group)
        begun := s.clock }]
      clock := s.clock + 1 } := by
  refine ⟨h.valid, h.apart, ?_, ?_, ?_, ?_, ?_⟩
  · intro j c hj hopen map hmap
    rcases getElem?_concat_cases hj with ⟨-, rfl⟩ | hj
    · exact hmap
    · exact h.got j c hj hopen map hmap
  · intro j c hj
    rcases getElem?_concat_cases hj with ⟨-, rfl⟩ | hj
    · exact Nat.lt_succ_self _
    · exact Nat.lt_succ_of_lt (h.begun j c hj)
  · intro j c hj e he
    rcases getElem?_concat_cases hj with ⟨-, rfl⟩ | hj
    · cases he
    · exact (h.ended j c hj e he).imp_left Nat.lt_succ_of_lt
  · intro j c j' c' hj hj' hkey
    rcases getElem?_concat_cases hj with ⟨-, rfl⟩ | hj <;>
      rcases getElem?_concat_cases hj' with ⟨-, rfl⟩ | hj'
    · exact ⟨rfl, rfl⟩
    · exact hok c' (List.mem_of_getElem? hj') hkey
    · have hnames := hok c (List.mem_of_getElem? hj) hkey.symm
      exact ⟨hnames.1.symm, hnames.2.symm⟩
    · exact h.names j c j' c' hj hj' hkey
  · intro j c hj hended
    rcases getElem?_concat_cases hj with ⟨-, rfl⟩ | hj
    · exact absurd rfl hended
    · obtain ⟨j₁, c₁, hj₁, hkey, hqueue, hfind, e, he, hlast⟩ := h.last j c hj hended
      refine ⟨j₁, c₁, ?_, hkey, hqueue, hfind, e, he, fun j₂ c₂ hj₂ hkey₂ hqueue₂ e₂ he₂ => ?_⟩
      · exact getElem?_append_of_getElem? hj₁
      · rcases getElem?_concat_cases hj₂ with ⟨-, rfl⟩ | hj₂
        · cases he₂
        · exact hlast j₂ c₂ hj₂ hkey₂ hqueue₂ e₂ he₂

theorem inv_step {a : Action} (h : Inv s) (hok : Alone s a) (hs : step s a = some s') :
    Inv s' := by
  cases a with
  | get group topic queueId offset =>
    cases hs
    exact h.get hok
  | put i =>
    rw [step] at hs
    cases hc : s.calls[i]? with
    | none =>
      rw [hc] at hs
      cases hs
    | some c =>
      simp only [hc] at hs
      obtain ⟨hopen, hs⟩ := Option.ite_none_left_eq_some.mp hs
      cases hs
      exact h.put hc (by simpa using hopen) hok

end

/-- **No committed offset is lost.** While a commit that got no map puts a new one only where the
table holds nothing else of its key, and nobody else has got a map of the key, the offset of every
queue is in the end the one of a commit for it which no other one follows. -/
theorem commits_sound (as : List Action) (s : State) (hm : Meets step Alone newState as)
    (hr : run step newState as = some s) : Sound s :=
  (run_invariant (fun _ _ _ => inv_step) inv_new hm hr).sound

/-- The state after a run. -/
def after (as : List Action) : State := (run step newState as).getD newState

/-- Commits for two queues of a key at the same time, behind a first one. -/
def laterCommits : List Action :=
  [.get ['g'] ['t'] 0 5, .put 0, .get ['g'] ['t'] 1 7, .get ['g'] ['t'] 0 6, .put 2, .put 1]

theorem commits_sound_later : Sound (after laterCommits) := by
  refine commits_sound laterCommits _ ?_ rfl
  refine Meets.cons rfl ?_ (Meets.cons rfl ?_ (Meets.cons rfl ?_ (Meets.cons rfl ?_
    (Meets.cons rfl ?_ (Meets.cons rfl ?_ trivial)))))
  · exact fun c hc => absurd hc List.not_mem_nil
  · rintro c hc -
    refine ⟨fun queueId hne => absurd rfl hne, fun j c' hj _ _ => ?_⟩
    rw [List.mem_singleton.mp (List.mem_of_getElem? hj)]
    rfl
  · rintro c hc -
    rw [List.mem_singleton.mp hc]
    exact ⟨rfl, rfl⟩
  · rintro c hc -
    rcases List.mem_pair.mp hc with rfl | rfl <;> exact ⟨rfl, rfl⟩
  · rintro c hc hmap
    cases hc
    cases hmap
  · rintro c hc hmap
    cases hc
    cases hmap

/-- The first commits for two queues of a key, at the same time. -/
def firstCommits : List Action :=
  [.get ['g'] ['t'] 0 5, .get ['g'] ['t'] 1 7, .put 0, .put 1]

theorem commits_overwritten : ¬ ∀ as s, run step newState as = some s → Sound s := by
  intro h
  have hsound := h firstCommits (after firstCommits) rfl
  have hended : ∀ c ∈ (after firstCommits).calls, c.ended ≠ none := by
    intro c hc
    rcases List.mem_pair.mp hc with rfl | rfl <;> exact Option.some_ne_none _
  exact (hsound hended _ List.mem_cons_self).1 rfl

end CloudMQ.OffsetCommits
