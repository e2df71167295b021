import CloudMQ.Lists
import CloudMQ.Producers
import CloudMQ.Runs

/-!
Registrations of consumers of one group, while other channels of the group go away.

A registration gets the object of the group, which it makes when there is none, and puts its channel
into it later. Whoever takes a channel out looks whether it was the last one, and then takes the
group out of the table.
-/

namespace CloudMQ.ConsumerRegistration

open CloudMQ.Utf8 CloudMQ.Tables CloudMQ.Lists CloudMQ.Runs
open CloudMQ.Producers (Channel)

/-- A registration that found no group, that has got the group's object, that did not find its
client in it, or that is over. -/
inductive RegisterStage
  | creating
  | got (info : ℕ)
  | putting (info : ℕ)
  | returned
deriving DecidableEq

/-- `removed`: the channel has been unregistered, closed or expired since the beginning. -/
structure Registration where
  channel : Channel
  clientId : Text
  stage : RegisterStage
  removed : Bool

inductive LeaveStage
  | got (info : ℕ)
  | removed (info : ℕ)
  | empty
  | ended

/-- An operation that takes channels away, when it has come to the group; a scan is about any
channel. -/
inductive Operation
  | unregisterConsumer (channel : Channel)
  | doChannelCloseEvent (channel : Channel)
  | scanNotActiveChannel

structure Leave where
  operation : Operation
  stage : LeaveStage

/-- What the table has for the group; the channels and client ids of every object that was made for
it; the calls ever begun. -/
structure State where
  consumerTable : Option ℕ
  channelInfoTables : List (Table Channel Text)
  registrations : List Registration
  leaves : List Leave

def newState : State := ⟨none, [], [], []⟩

inductive Action
  | registerConsumer (channel : Channel) (clientId : Text)
  | putIfAbsent (i : ℕ)
  | getChannel (i : ℕ)
  | putChannel (i : ℕ)
  | leave (operation : Operation)
  | removeChannel (i : ℕ)
  | removeExpired (i : ℕ) (channel : Channel)
  | isEmpty (i : ℕ)
  | removeGroup (i : ℕ)

/-- A channel is taken out of an object. -/
def remove (info : ℕ) (channel : Channel) (s : State) : State :=
  { s with
    channelInfoTables := s.channelInfoTables.modify info (·.erase channel)
    registrations := s.registrations.map fun r =>
      if r.channel = channel then { r with removed := true } else r }

/-- The step of each call on one of the tables. -/
def step (s : State) : Action → Option State
  | .registerConsumer channel clientId =>
    some { s with
      registrations := s.registrations ++ [{
        channel, clientId
        stage := s.consumerTable.elim .creating .got
        removed := false }] }
  | .putIfAbsent i =>
    match s.registrations[i]? with
    | some ⟨channel, clientId, .creating, removed⟩ =>
      match s.consumerTable with
      | some prev =>
        some { s with
          registrations := s.registrations.set i ⟨channel, clientId, .got prev, removed⟩ }
      | none =>
        let info := s.channelInfoTables.length
        some { s with
          consumerTable := some info
          channelInfoTables := s.channelInfoTables ++ [∅]
          registrations := s.registrations.set i ⟨channel, clientId, .got info, removed⟩ }
    | _ => none
  | .getChannel i =>
    match s.registrations[i]? with
    | some ⟨channel, clientId, .got info, removed⟩ =>
      let channelInfoTable := s.channelInfoTables[info]?.getD ∅
      let stage :=
        if channelInfoTable.lookup channel = some clientId then .returned else .putting info
      some { s with
        registrations := s.registrations.set i ⟨channel, clientId, stage, removed⟩ }
    | _ => none
  | .putChannel i =>
    match s.registrations[i]? with
    | some ⟨channel, clientId, .putting info, removed⟩ =>
      some { s with
        channelInfoTables := s.channelInfoTables.modify info (·.insert channel clientId)
        registrations := s.registrations.set i ⟨channel, clientId, .returned, removed⟩ }
    | _ => none
  | .leave operation =>
    match s.consumerTable with
    | some info => some { s with leaves := s.leaves ++ [⟨operation, .got info⟩] }
    | none => some s
  | .removeChannel i =>
    match s.leaves[i]? with
    | some ⟨.unregisterConsumer channel, .got info⟩ =>
      some { remove info channel s with
        leaves := s.leaves.set i ⟨.unregisterConsumer channel, .removed info⟩ }
    | some ⟨.doChannelCloseEvent channel, .got info⟩ =>
      let found := (s.channelInfoTables[info]?).any (channel ∈ ·)
      some { remove info channel s with
        leaves := s.leaves.set i
          ⟨.doChannelCloseEvent channel, if found then .removed info else .ended⟩ }
    | _ => none
  | .removeExpired i channel =>
    match s.leaves[i]? with
    | some ⟨.scanNotActiveChannel, .got info⟩ => some (remove info channel s)
    | _ => none
  | .isEmpty i =>
    let check := fun operation info =>
      let empty := (s.channelInfoTables[info]?).any (· = ∅)
      some { s with leaves := s.leaves.set i ⟨operation, if empty then .empty else .ended⟩ }
    match s.leaves[i]? with
    | some ⟨operation, .removed info⟩ => check operation info
    | some ⟨.scanNotActiveChannel, .got info⟩ => check .scanNotActiveChannel info
    | _ => none
  | .removeGroup i =>
    match s.leaves[i]? with
    | some ⟨operation, .empty⟩ =>
      some { s with consumerTable := none, leaves := s.leaves.set i ⟨operation, .ended⟩ }
    | _ => none

/-! ### The promise and the condition -/

/-- The group has an object with the channel. -/
def Connected (s : State) (channel : Channel) : Prop :=
  ∃ info t, s.consumerTable = some info ∧ s.channelInfoTables[info]? = some t ∧ channel ∈ t

/-- The channel of a registration that has returned is connected, unless it was removed. -/
def Sound (s : State) : Prop :=
  ∀ r ∈ s.registrations, r.stage = .returned → r.removed = false → Connected s r.channel

/-- The group is taken out when its object has no channel, and none is coming from a registration
that has got the object. -/
def Vacant (s : State) : Action → Prop
  | .removeGroup _ => ∀ info, s.consumerTable = some info →
    s.channelInfoTables[info]? = some ∅ ∧
    ∀ r ∈ s.registrations, r.removed = false → r.stage ≠ .got info ∧ r.stage ≠ .putting info
  | _ => True

/-- A registration has got the object that the table has. -/
structure Inv (s : State) : Prop where
  got : ∀ r ∈ s.registrations, r.removed = false → ∀ info,
    r.stage = .got info ∨ r.stage = .putting info → s.consumerTable = some info
  returned : Sound s
  known : ∀ info, s.consumerTable = some info → ∃ t, s.channelInfoTables[info]? = some t

lemma inv_new : Inv newState where
  got := fun _ h => absurd h List.not_mem_nil
  returned := fun _ h => absurd h List.not_mem_nil
  known := fun _ h => nomatch h

section

variable {s s' : State}

/-- A registration of which there was one in the same list, or that is new. -/
lemma Inv.set (h : Inv s) {i : ℕ} {r : Registration} {tables : List (Table Channel Text)}
    (hkeep : ∀ channel, Connected s channel →
      Connected { s with channelInfoTables := tables } channel)
    (hknown : ∀ info, s.consumerTable = some info → ∃ t, tables[info]? = some t)
    (hgot : r.removed = false → ∀ info, r.stage = .got info ∨ r.stage = .putting info →
      s.consumerTable = some info)
    (hreturned : r.removed = false → r.stage = .returned →
      Connected { s with channelInfoTables := tables } r.channel) :
    Inv { s with channelInfoTables := tables, registrations := s.registrations.set i r } where
  got := fun r' hmem hremoved info hstage => by
    rcases List.mem_or_eq_of_mem_set hmem with hold | rfl
    · exact h.got r' hold hremoved info hstage
    · exact hgot hremoved info hstage
  returned := fun r' hmem hstage hremoved => by
    rcases List.mem_or_eq_of_mem_set hmem with hold | rfl
    · exact hkeep _ (h.returned r' hold hstage hremoved)
    · exact hreturned hremoved hstage
  known := hknown

lemma Inv.leaves (h : Inv s) (leaves : List Leave) : Inv { s with leaves } :=
  ⟨h.got, h.returned, h.known⟩

lemma getElem?_modify_iff {tables : List (Table Channel Text)} {info : ℕ}
    {f : Table Channel Text → Table Channel Text} {o : ℕ} {t : Table Channel Text}
    (ht : tables[o]? = some t) :
    (tables.modify info f)[o]? = some (if info = o then f t else t) := by
  rw [List.getElem?_modify, ht]
  rfl

/-- The other channels stay, and their registrations as they are. -/
lemma Inv.remove (h : Inv s) (info : ℕ) (channel : Channel) : Inv (remove info channel s) := by
  have hkept : ∀ r ∈ (ConsumerRegistration.remove info channel s).registrations,
      r.removed = false → r ∈ s.registrations ∧ r.channel ≠ channel := by
    intro r hmem hremoved
    obtain ⟨r', hr', rfl⟩ := List.mem_map.mp hmem
    split_ifs at hremoved ⊢ with hch
    exact ⟨hr', hch⟩
  refine ⟨fun r hmem hremoved => ?_, fun r hmem hstage hremoved => ?_, fun o ho => ?_⟩
  · exact h.got r (hkept r hmem hremoved).1 hremoved
  · obtain ⟨hold, hne⟩ := hkept r hmem hremoved
    obtain ⟨o, t, ho, ht, hin⟩ := h.returned r hold hstage hremoved
    refine ⟨o, _, ho, getElem?_modify_iff ht, ?_⟩
    split_ifs
    · exact AList.mem_erase.mpr ⟨hne, hin⟩
    · exact hin
  · obtain ⟨t, ht⟩ := h.known o ho
    exact ⟨_, getElem?_modify_iff ht⟩

theorem inv_step {a : Action} (h : Inv s) (hok : Vacant s a) (hs : step s a = some s') :
    Inv s' := by
  cases a with
  | registerConsumer channel clientId =>
    cases hs
    refine ⟨fun r hmem hremoved info hstage => ?_, fun r hmem hstage hremoved => ?_, h.known⟩
    · rcases List.mem_append.mp hmem with hold | hnew
      · exact h.got r hold hremoved info hstage
      · rw [List.mem_singleton.mp hnew] at hstage
        cases hslot : s.consumerTable with
        | none => simp [hslot] at hstage
        | some o => simpa [hslot] using hstage
    · rcases List.mem_append.mp hmem with hold | hnew
      · exact h.returned r hold hstage hremoved
      · rw [List.mem_singleton.mp hnew] at hstage
        cases hslot : s.consumerTable <;> simp [hslot] at hstage
  | putIfAbsent i =>
    dsimp only [step] at hs
    split at hs
    · rename_i channel clientId removed hr
      split at hs
      · rename_i prev hslot
        cases hs
        refine h.set (fun _ hc => hc) h.known (fun _ info hstage => ?_) fun _ hstage => ?_
        · simpa [hslot] using hstage
        · simp at hstage
      · rename_i hslot
        cases hs
        -- nobody else has the new object, and nobody had another one
        refine ⟨fun r hmem hremoved info hstage => ?_, fun r hmem hstage hremoved => ?_,
          fun info hinfo => ?_⟩
        · rcases List.mem_or_eq_of_mem_set hmem with hold | rfl
          · cases hslot.symm.trans (h.got r hold hremoved info hstage)
          · simpa using hstage
        · rcases List.mem_or_eq_of_mem_set hmem with hold | rfl
          · obtain ⟨info, _, hinfo, -⟩ := h.returned r hold hstage hremoved
            cases hslot.symm.trans hinfo
          · simp at hstage
        · cases hinfo
          exact ⟨∅, List.getElem?_concat_length⟩
    · cases hs
  | getChannel i =>
    dsimp only [step] at hs
    split at hs
    · rename_i channel clientId info removed hr
      cases hs
      have hmem := List.mem_of_getElem? hr
      refine h.set (fun _ hc => hc) h.known (fun hremoved o hstage => ?_)
        fun hremoved hstage => ?_
      · have hslot := h.got _ hmem hremoved info (.inl rfl)
        dsimp only at hstage
        split_ifs at hstage
        · simp at hstage
        · simpa [hslot] using hstage
      · have hslot := h.got _ hmem hremoved info (.inl rfl)
        obtain ⟨t, ht⟩ := h.known info hslot
        dsimp only at hstage
        split_ifs at hstage with hfound
        rw [ht, Option.getD_some] at hfound
        exact ⟨info, t, hslot, ht, mem_iff_lookup.mpr ⟨clientId, hfound⟩⟩
    · cases hs
  | putChannel i =>
    dsimp only [step] at hs
    split at hs
    · rename_i channel clientId info removed hr
      cases hs
      have hmem := List.mem_of_getElem? hr
      refine h.set (fun channel' hc => ?_) (fun o ho => ?_) (fun _ o hstage => ?_)
        fun hremoved _ => ?_
      · obtain ⟨o, t, ho, ht, hin⟩ := hc
        refine ⟨o, _, ho, getElem?_modify_iff ht, ?_⟩
        split_ifs
        · exact (AList.mem_insert _).mpr (.inr hin)
        · exact hin
      · obtain ⟨t, ht⟩ := h.known o ho
        exact ⟨_, getElem?_modify_iff ht⟩
      · simp at hstage
      · have hslot := h.got _ hmem hremoved info (.inr rfl)
        obtain ⟨t, ht⟩ := h.known info hslot
        refine ⟨info, _, hslot, getElem?_modify_iff ht, ?_⟩
        rw [if_pos rfl]
        exact (AList.mem_insert _).mpr (.inl rfl)
    · cases hs
  | leave operation =>
    dsimp only [step] at hs
    split at hs <;> cases hs
    · exact h.leaves _
    · exact h
  | removeChannel i =>
    dsimp only [step] at hs
    split at hs <;> cases hs
    · exact (h.remove _ _).leaves _
    · exact (h.remove _ _).leaves _
  | removeExpired i channel =>
    dsimp only [step] at hs
    split at hs <;> cases hs
    exact h.remove _ _
  | isEmpty i =>
    dsimp only [step] at hs
    split at hs <;> cases hs
    · exact h.leaves _
    · exact h.leaves _
  | removeGroup i =>
    dsimp only [step] at hs
    split at hs <;> cases hs
    refine ⟨fun r hmem hremoved info hstage => ?_, fun r hmem hstage hremoved => ?_,
      fun info hinfo => nomatch hinfo⟩
    · have hslot := h.got r hmem hremoved info hstage
      obtain ⟨hgot, hputting⟩ := (hok info hslot).2 r hmem hremoved
      exact absurd hstage (not_or.mpr ⟨hgot, hputting⟩)
    · obtain ⟨info, t, hslot, ht, hin⟩ := h.returned r hmem hstage hremoved
      rw [(hok info hslot).1, Option.some.injEq] at ht
      exact absurd (ht ▸ hin) (AList.notMem_empty _)

end

/-- **Registrations that are not lost.** A registration that has returned keeps its channel in the
table of the group until the channel is removed, in every run in which the group is only taken out
when its object has no channel and none is coming. -/
theorem registrations_kept (as : List Action) (s : State) (hm : Meets step Vacant newState as)
    (hr : run step newState as = some s) : Sound s :=
  (run_invariant (fun _ _ _ => inv_step) inv_new hm hr).returned

/-- One registration with a new group, to its end. -/
def registered : List Action :=
  [.registerConsumer 1 ['a'], .putIfAbsent 0, .getChannel 0, .putChannel 0]

/-- The last channel goes away, and another comes afterwards. -/
def departed : List Action :=
  registered ++ [.leave (.unregisterConsumer 1), .removeChannel 0, .isEmpty 0, .removeGroup 0,
    .registerConsumer 2 ['b'], .putIfAbsent 1, .getChannel 1, .putChannel 1]

/-- The other comes when the last channel is on its way. -/
def overtaken : List Action :=
  registered ++ [.leave (.unregisterConsumer 1), .registerConsumer 2 ['b'], .removeChannel 0,
    .isEmpty 0, .removeGroup 0, .getChannel 1, .putChannel 1]

def after (as : List Action) : State := (run step newState as).getD newState

theorem registrations_kept_departed : Sound (after departed) := by
  refine registrations_kept departed _ ?_ rfl
  refine .cons rfl trivial <| .cons rfl trivial <| .cons rfl trivial <| .cons rfl trivial <|
    .cons rfl trivial <| .cons rfl trivial <| .cons rfl trivial <| .cons rfl ?_ <|
    .cons rfl trivial <| .cons rfl trivial <| .cons rfl trivial <| .cons rfl trivial trivial
  rintro info ⟨⟩
  refine ⟨rfl, fun r hmem hremoved => ?_⟩
  cases List.mem_singleton.mp hmem
  cases hremoved

theorem registrations_overtaken : ¬ ∀ as s, run step newState as = some s → Sound s := by
  intro h
  obtain ⟨info, _, hinfo, -⟩ := h overtaken (after overtaken) rfl
    ⟨2, ['b'], .returned, false⟩ (List.mem_of_getElem? (i := 1) rfl) rfl rfl
  cases hinfo

end CloudMQ.ConsumerRegistration
