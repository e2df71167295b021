import CloudMQ.SyncFlush

/-!
`SYNC_MASTER`: what `PUT_OK` says about the slave.

With `SYNC_FLUSH` the wait for the slave uses the request whose latch the wait for the disk found
open, so it does not wait. With `ASYNC_FLUSH` the request is new, but `doWaitTransfer` opens its
latch also when the slave has not acknowledged the message after the last round. In both cases
`PUT_OK` means what it says only when the slave was fast enough.
-/

namespace CloudMQ.SyncMaster

open CloudMQ.Buffer CloudMQ.Message CloudMQ.Record CloudMQ.Segment CloudMQ.CommitLog
open CloudMQ.Agreement CloudMQ.GroupCommit CloudMQ.Runs
open CloudMQ.SyncFlush (requestOf_setRequest requestOf_eq swapRequests_lists next_lists next_pc
  started tightConfig tightLog waiting putFirst outcome returned_of_outcome)

/-! ### The condition -/

/-- When the wait for the slave is issued after a successful wait for the disk, the slave has
acknowledged the message already. -/
def SlaveAt (cfg : SyncConfig) (s : State) : Pc → Prop
  | .flushed result status => cfg.flushDiskType = .SYNC_FLUSH → status = .PUT_OK →
      nextOffset result ≤ s.push2SlaveMaxOffset
  | _ => True

/-- The last round of `doWaitTransfer` finds the message acknowledged. -/
def TransferAt (cfg : SyncConfig) (s : State) : ServicePc → Prop
  | .check i => cfg.flushDiskType = .ASYNC_FLUSH → 5 ≤ i →
      ∀ c ∈ s.groupTransfer.requestsRead.head?, ∀ r ∈ s.requestOf c,
        r.nextOffset ≤ s.push2SlaveMaxOffset
  | _ => True

def Allowed (cfg : SyncConfig) (s : State) : Action → Prop
  | .slave c => ∀ call ∈ s.calls c, SlaveAt cfg s call.pc
  | .groupTransfer => TransferAt cfg s s.groupTransfer.pc
  | _ => True

instance (cfg : SyncConfig) (s : State) : (pc : Pc) → Decidable (SlaveAt cfg s pc)
  | .flushed result status => inferInstanceAs (Decidable (cfg.flushDiskType = .SYNC_FLUSH →
      status = .PUT_OK → nextOffset result ≤ s.push2SlaveMaxOffset))
  | .start => .isTrue trivial
  | .getLast _ => .isTrue trivial
  | .append _ => .isTrue trivial
  | .stored _ => .isTrue trivial
  | .waitFlush _ => .isTrue trivial
  | .waitSlave _ _ => .isTrue trivial
  | .returned _ _ => .isTrue trivial
  | .failed _ _ => .isTrue trivial
  | .thrown _ => .isTrue trivial

instance (cfg : SyncConfig) (s : State) : (pc : ServicePc) → Decidable (TransferAt cfg s pc)
  | .check i => inferInstanceAs (Decidable (cfg.flushDiskType = .ASYNC_FLUSH → 5 ≤ i →
      ∀ c ∈ s.groupTransfer.requestsRead.head?, ∀ r ∈ s.requestOf c,
        r.nextOffset ≤ s.push2SlaveMaxOffset))
  | .waiting => .isTrue trivial
  | .commitOnly => .isTrue trivial
  | .commit _ => .isTrue trivial
  | .setOK _ => .isTrue trivial
  | .countDown => .isTrue trivial

instance (cfg : SyncConfig) (s : State) : (a : Action) → Decidable (Allowed cfg s a)
  | .slave c => inferInstanceAs (Decidable (∀ call ∈ s.calls c, SlaveAt cfg s call.pc))
  | .groupTransfer => inferInstanceAs (Decidable (TransferAt cfg s s.groupTransfer.pc))
  | .call _ _ _ => .isTrue trivial
  | .lock _ => .isTrue trivial
  | .getLastMapedFile _ => .isTrue trivial
  | .appendMessage _ => .isTrue trivial
  | .flush _ => .isTrue trivial
  | .wake _ => .isTrue trivial
  | .timeout _ => .isTrue trivial
  | .groupCommit => .isTrue trivial
  | .notifyTransferSome _ => .isTrue trivial
  | .connections _ => .isTrue trivial

/-! ### The invariant -/

section Invariant

variable {cfg : SyncConfig} {s s' : State}

/-- What is known of a call, by where it stands. -/
def Replicated (cfg : SyncConfig) (push : ℕ) (call : Call) : Prop :=
  match call.pc with
  | .start | .getLast _ | .append _ | .stored _ => call.request = none
  | .waitFlush _ => cfg.flushDiskType = .SYNC_FLUSH
  | .flushed _ _ => cfg.flushDiskType = .ASYNC_FLUSH → call.request = none
  | .waitSlave result status => status = .PUT_OK → nextOffset result ≤ push ∨
      cfg.flushDiskType = .ASYNC_FLUSH ∧ call.request = some { nextOffset := nextOffset result }
  | .returned result status => status = .PUT_OK → call.message.isWaitStoreMsgOK →
      cfg.brokerRole = .SYNC_MASTER → nextOffset result ≤ push
  | .failed _ _ | .thrown _ => True

structure Inv (cfg : SyncConfig) (s : State) : Prop where
  calls : ∀ c call, s.calls c = some call → Replicated cfg s.push2SlaveMaxOffset call
  group : cfg.flushDiskType = .ASYNC_FLUSH →
    s.groupCommit.requestsRead = [] ∧ s.groupCommit.requestsWrite = []
  listed : ∀ c ∈ s.groupTransfer.requestsRead ++ s.groupTransfer.requestsWrite,
    (s.requestOf c).isSome
  serving : cfg.flushDiskType = .ASYNC_FLUSH →
    (∃ ok, s.groupTransfer.pc = .setOK ok) ∨ s.groupTransfer.pc = .countDown →
      ∀ c ∈ s.groupTransfer.requestsRead.head?, ∀ r, s.requestOf c = some r →
        r.nextOffset ≤ s.push2SlaveMaxOffset

lemma Replicated.mono {push push' : ℕ} {call : Call} (h : Replicated cfg push call)
    (hle : push ≤ push') : Replicated cfg push' call := by
  unfold Replicated at *
  split at h <;> try exact h
  · exact fun hst => (h hst).imp_left (·.trans hle)
  · exact fun h1 h2 h3 => (h h1 h2 h3).trans hle

/-- A flag or a latch may be set once the slave has the message. -/
lemma Replicated.updateRequest {push : ℕ} {call : Call}
    {f : GroupCommitRequest → GroupCommitRequest} (h : Replicated cfg push call)
    (hwoken : ∀ r, cfg.flushDiskType = .ASYNC_FLUSH → call.request = some r →
      r.nextOffset ≤ push) : Replicated cfg push (call.updateRequest f) := by
  obtain ⟨env, m, pc, request⟩ := call
  cases pc with
  | start => exact Option.map_eq_none_iff.mpr h
  | getLast first => exact Option.map_eq_none_iff.mpr h
  | append first => exact Option.map_eq_none_iff.mpr h
  | stored result => exact Option.map_eq_none_iff.mpr h
  | waitFlush result => exact h
  | flushed result status => exact fun hasync => Option.map_eq_none_iff.mpr (h hasync)
  | waitSlave result status =>
    intro hst
    rcases h hst with hle | ⟨hasync, hr⟩
    · exact .inl hle
    · exact .inl (hwoken _ hasync hr)
  | returned result status => exact h
  | failed status result => trivial
  | thrown e => trivial

/-- The step of a call. -/
lemma Inv.of_call {c : ℕ} {call' : Call} (h : Inv cfg s)
    (hcalls : s'.calls = Function.update s.calls c (some call'))
    (hpush : s'.push2SlaveMaxOffset = s.push2SlaveMaxOffset)
    (hrep : Replicated cfg s.push2SlaveMaxOffset call')
    (hrequest : ∀ r, s.requestOf c = some r → call'.request = some r)
    (hgroup : s'.groupCommit = s.groupCommit ∨ cfg.flushDiskType = .SYNC_FLUSH)
    (htransfer : s'.groupTransfer = s.groupTransfer ∨
      s'.groupTransfer =
        { s.groupTransfer with requestsWrite := s.groupTransfer.requestsWrite ++ [c] } ∧
        call'.request.isSome) : Inv cfg s' := by
  have hreq : ∀ c' r, s.requestOf c' = some r → s'.requestOf c' = some r := by
    intro c' r hr
    by_cases hc : c' = c
    · subst hc
      simp [State.requestOf, hcalls, hrequest r hr]
    · rw [State.requestOf, hcalls, Function.update_of_ne hc]
      exact hr
  have hlisted : ∀ c' ∈ s.groupTransfer.requestsRead ++ s.groupTransfer.requestsWrite,
      (s'.requestOf c').isSome := by
    intro c' hc'
    obtain ⟨r, hr⟩ := Option.isSome_iff_exists.mp (h.listed c' hc')
    rw [hreq c' r hr]
    rfl
  have hread : s'.groupTransfer.requestsRead = s.groupTransfer.requestsRead ∧
      s'.groupTransfer.pc = s.groupTransfer.pc := by
    rcases htransfer with ht | ⟨ht, -⟩ <;> rw [ht] <;> exact ⟨rfl, rfl⟩
  refine ⟨fun c' call hc' => ?_, fun hasync => ?_, fun c' hc' => ?_,
    fun hasync hpc c' hc' r hr => ?_⟩
  · rw [hcalls] at hc'
    rw [hpush]
    by_cases hc : c' = c
    · subst hc
      rw [Function.update_self, Option.some.injEq] at hc'
      exact hc' ▸ hrep
    · rw [Function.update_of_ne hc] at hc'
      exact h.calls c' call hc'
  · rcases hgroup with hg | hg
    · rw [hg]
      exact h.group hasync
    · rw [hg] at hasync
      exact absurd hasync (by simp)
  · rcases htransfer with ht | ⟨ht, hr⟩
    · rw [ht] at hc'
      exact hlisted c' hc'
    · rw [ht, ← List.append_assoc] at hc'
      rcases List.mem_append.mp hc' with hc' | hc'
      · exact hlisted c' hc'
      · rw [List.mem_singleton.mp hc']
        simpa [State.requestOf, hcalls] using hr
  · rw [hread.1] at hc'
    rw [hread.2] at hpc
    obtain ⟨r', hr'⟩ := Option.isSome_iff_exists.mp
      (h.listed c' (List.mem_append_left _ (List.mem_of_mem_head? hc')))
    have heq := hreq c' r' hr'
    rw [hr, Option.some.injEq] at heq
    rw [heq, hpush]
    exact h.serving hasync hpc c' hc' r' hr'

/-- A call moves on and keeps its request. -/
lemma Inv.move (h : Inv cfg s) {c : ℕ} {call : Call} {pc : Pc} (hc : s.calls c = some call)
    (hcalls : s'.calls = Function.update s.calls c (some { call with pc := pc }))
    (hpush : s'.push2SlaveMaxOffset = s.push2SlaveMaxOffset)
    (hrep : Replicated cfg s.push2SlaveMaxOffset { call with pc := pc })
    (hgroup : s'.groupCommit = s.groupCommit) (htransfer : s'.groupTransfer = s.groupTransfer) :
    Inv cfg s' := by
  refine h.of_call hcalls hpush hrep (fun r hr => ?_) (.inl hgroup) (.inl htransfer)
  rwa [requestOf_eq hc] at hr

lemma callStep_inv (h : Inv cfg s) {c : ℕ} {env : Env} {m : MessageExtBrokerInner}
    (hs : s.callStep cfg c env m = some s') : Inv cfg s' := by
  unfold State.callStep at hs
  split at hs
  · exact absurd hs (by simp)
  · next hnone =>
    have hrequest : ∀ (call' : Call) r, s.requestOf c = some r → call'.request = some r := by
      intro call' r hr
      rw [State.requestOf, hnone] at hr
      exact absurd hr (by simp)
    split at hs <;> cases hs
    · exact h.of_call rfl rfl trivial (hrequest _) (.inl rfl) (.inl rfl)
    · exact h.of_call rfl rfl rfl (hrequest _) (.inl rfl) (.inl rfl)

/-- The locked part touches neither requests nor services. -/
lemma lockedSteps_inv (h : Inv cfg s) {c : ℕ} {call : Call} (hc : s.calls c = some call)
    (hs : s.lockStep c call = some s' ∨ s.getLastStep c call = some s' ∨
      s.appendStep cfg c call = some s') : Inv cfg s' := by
  have hold := h.calls c call hc
  rcases hs with hs | hs | hs
  · unfold State.lockStep at hs
    split at hs
    · next hlock hpc =>
      cases hs
      rw [Replicated, hpc] at hold
      exact h.move hc rfl rfl hold rfl rfl
    · exact absurd hs (by simp)
  · unfold State.getLastStep at hs
    split at hs
    · next first hpc =>
      rw [Replicated, hpc] at hold
      simp only at hs
      split at hs <;> cases hs
      · exact h.move hc rfl rfl trivial rfl rfl
      · exact h.move hc rfl rfl hold rfl rfl
    · exact absurd hs (by simp)
  · unfold State.appendStep at hs
    split at hs
    · next first f hpc hlast =>
      rw [Replicated, hpc] at hold
      simp only at hs
      split at hs <;> cases hs
      · exact h.move hc rfl rfl trivial rfl rfl
      · refine h.move hc rfl rfl ?_ rfl rfl
        unfold State.afterAppend
        split <;> first | exact hold | trivial
    · exact absurd hs (by simp)

lemma flushStep_inv (h : Inv cfg s) {c : ℕ} {call : Call} (hc : s.calls c = some call)
    (hs : s.flushStep cfg c call = some s') : Inv cfg s' := by
  have hold := h.calls c call hc
  unfold State.flushStep at hs
  split at hs
  · next result hpc =>
    rw [Replicated, hpc] at hold
    split at hs
    · next hsync =>
      cases hs
      refine h.of_call rfl rfl hsync.1 (fun r hr => ?_) (.inr hsync.1) (.inl rfl)
      rw [requestOf_eq hc, hold] at hr
      exact absurd hr (by simp)
    · cases hs
      exact h.move hc rfl rfl (fun _ => hold) rfl rfl
  · exact absurd hs (by simp)

lemma slaveStep_inv (h : Inv cfg s) {c : ℕ} {call : Call} (hc : s.calls c = some call)
    (hok : Allowed cfg s (.slave c)) (hs : s.slaveStep cfg c call = some s') : Inv cfg s' := by
  have hold := h.calls c call hc
  have hslave := hok call hc
  unfold State.slaveStep at hs
  split at hs
  · next result status hpc =>
    rw [Replicated, hpc] at hold
    rw [hpc] at hslave
    split at hs
    · split at hs <;> cases hs
      · refine h.of_call rfl rfl (fun hst => ?_) (fun r hr => ?_) (.inl rfl) (.inr ⟨rfl, rfl⟩)
        · cases hdisk : cfg.flushDiskType with
          | SYNC_FLUSH => exact .inl (hslave hdisk hst)
          | ASYNC_FLUSH => exact .inr ⟨rfl, by simp [hold hdisk]⟩
        · rw [requestOf_eq hc] at hr
          simp [hr]
      · exact h.move hc rfl rfl (fun hst => absurd hst (by simp)) rfl rfl
    · next hrole =>
      cases hs
      exact h.move hc rfl rfl (fun _ hwait hmaster => absurd ⟨hmaster, hwait⟩ hrole) rfl rfl
  · exact absurd hs (by simp)

lemma afterWait_inv (h : Inv cfg s) {c : ℕ} {call : Call} (hc : s.calls c = some call)
    {r : GroupCommitRequest} (hr : call.request = some r) {answer : Bool}
    (hanswer : answer = true → r.countDownLatch ∨ r.flushOK)
    (hs : (State.afterWait call.pc answer).map (s.setPc c call) = some s') : Inv cfg s' := by
  obtain ⟨pc, hpc, rfl⟩ := Option.map_eq_some_iff.mp hs
  have hold := h.calls c call hc
  cases hcall : call.pc with
  | waitFlush result =>
    simp only [State.afterWait, hcall, Option.some.injEq] at hpc
    rw [Replicated, hcall] at hold
    subst hpc
    refine h.move hc rfl rfl (fun hasync => ?_) rfl rfl
    rw [show cfg.flushDiskType = _ from hold] at hasync
    exact absurd hasync (by simp)
  | waitSlave result status =>
    simp only [State.afterWait, hcall, Option.some.injEq] at hpc
    rw [Replicated, hcall] at hold
    subst hpc
    refine h.move hc rfl rfl (fun hst _ _ => ?_) rfl rfl
    cases answer with
    | false => exact absurd hst (by simp)
    | true =>
      rcases hold hst with hle | ⟨-, hfresh⟩
      · exact hle
      · -- the request is as it was made, so nobody woke the caller
        rw [hr, Option.some.injEq] at hfresh
        have := hanswer rfl
        simp [hfresh] at this
  | _ => simp [State.afterWait, hcall] at hpc

/-- A request is changed, and then the services. -/
lemma Inv.setRequest (h : Inv cfg s) {c : ℕ} {f : GroupCommitRequest → GroupCommitRequest}
    (hf : ∀ r, (f r).nextOffset = r.nextOffset)
    (hwoken : cfg.flushDiskType = .ASYNC_FLUSH → ∀ r, s.requestOf c = some r →
      r.nextOffset ≤ s.push2SlaveMaxOffset) : Inv cfg (s.setRequest c f) where
  calls c' call' hc' := by
    by_cases hc : c' = c
    · subst hc
      simp only [State.setRequest, Function.update_self, Option.map_eq_some_iff] at hc'
      obtain ⟨call, hcall, rfl⟩ := hc'
      exact (h.calls c' call hcall).updateRequest fun r hasync hr =>
        hwoken hasync r ((requestOf_eq hcall).trans hr)
    · simp only [State.setRequest, Function.update_of_ne hc] at hc'
      exact h.calls c' call' hc'
  group := h.group
  listed c' hc' := by
    rw [requestOf_setRequest]
    split
    · simpa using h.listed c' hc'
    · exact h.listed c' hc'
  serving hasync hpc c' hc' r hr := by
    rw [requestOf_setRequest] at hr
    split at hr
    · obtain ⟨r₀, hr₀, rfl⟩ := Option.map_eq_some_iff.mp hr
      rw [hf]
      exact h.serving hasync hpc c' hc' r₀ hr₀
    · exact h.serving hasync hpc c' hc' r hr

lemma Inv.of_group (h : Inv cfg s) {q : MapedFileQueue Bytes} {service : Service}
    (hlists : ∀ c ∈ service.requestsRead ++ service.requestsWrite,
      c ∈ s.groupCommit.requestsRead ++ s.groupCommit.requestsWrite) :
    Inv cfg { s.setQueue q with groupCommit := service } where
  calls := h.calls
  group hasync := by
    obtain ⟨h1, h2⟩ := h.group hasync
    rw [h1, h2] at hlists
    have hnil := List.eq_nil_iff_forall_not_mem.mpr fun c hc => by simpa using hlists c hc
    exact List.append_eq_nil_iff.mp hnil
  listed := h.listed
  serving := h.serving

lemma groupCommitStep_inv (h : Inv cfg s) (hs : s.groupCommitStep = some s') : Inv cfg s' := by
  -- with ASYNC_FLUSH nobody is in the lists
  have hsync : ∀ c, s.groupCommit.requestsRead.head? = some c →
      cfg.flushDiskType = .ASYNC_FLUSH → ∀ r, s.requestOf c = some r →
        r.nextOffset ≤ s.push2SlaveMaxOffset := by
    intro c hc hasync
    rw [(h.group hasync).1] at hc
    exact absurd hc (by simp)
  unfold State.groupCommitStep at hs
  simp only at hs
  split at hs
  · cases hs
    exact h.of_group fun c => swapRequests_lists
  · cases hs
    exact h.of_group fun c hc => hc
  · obtain ⟨c, -, hs⟩ := Option.bind_eq_some_iff.mp hs
    obtain ⟨r, -, hs⟩ := Option.bind_eq_some_iff.mp hs
    cases hs
    exact h.of_group fun c hc => hc
  · cases hs
    exact h.of_group fun c hc => hc
  · next ok hpc =>
    obtain ⟨c, hc, hs⟩ := Option.bind_eq_some_iff.mp hs
    cases hs
    have hset : Inv cfg (s.setRequest c fun r => { r with flushOK := ok }) :=
      h.setRequest (fun _ => rfl) (hsync c hc)
    exact hset.of_group fun c hc => hc
  · obtain ⟨c, hc, hs⟩ := Option.bind_eq_some_iff.mp hs
    cases hs
    have hset : Inv cfg (s.setRequest c fun r => { r with countDownLatch := true }) :=
      h.setRequest (fun _ => rfl) (hsync c hc)
    exact hset.of_group fun c => next_lists

lemma Inv.of_transfer (h : Inv cfg s) {service : Service}
    (hlists : ∀ c ∈ service.requestsRead ++ service.requestsWrite,
      c ∈ s.groupTransfer.requestsRead ++ s.groupTransfer.requestsWrite)
    (hserving : cfg.flushDiskType = .ASYNC_FLUSH →
      (∃ ok, service.pc = .setOK ok) ∨ service.pc = .countDown →
        ∀ c ∈ service.requestsRead.head?, ∀ r, s.requestOf c = some r →
          r.nextOffset ≤ s.push2SlaveMaxOffset) : Inv cfg { s with groupTransfer := service } where
  calls := h.calls
  group := h.group
  listed c hc := h.listed c (hlists c hc)
  serving := hserving

lemma groupTransferStep_inv (h : Inv cfg s) (hok : Allowed cfg s .groupTransfer)
    (hs : s.groupTransferStep = some s') : Inv cfg s' := by
  unfold State.groupTransferStep at hs
  simp only at hs
  split at hs
  · cases hs
    refine h.of_transfer (fun c => swapRequests_lists) fun _ hpc => ?_
    unfold Service.swapRequests at hpc
    split at hpc <;> simp at hpc
  · next i hpc =>
    obtain ⟨c, hc, hs⟩ := Option.bind_eq_some_iff.mp hs
    obtain ⟨r, hr, hs⟩ := Option.bind_eq_some_iff.mp hs
    cases hs
    simp only [Allowed, hpc, TransferAt] at hok
    refine h.of_transfer (fun c hc => hc) fun hasync hpc' c' hc' r' hr' => ?_
    rw [Option.mem_def] at hc'
    rw [hc, Option.some.injEq] at hc'
    subst hc'
    rw [hr, Option.some.injEq] at hr'
    subst hr'
    by_contra hnot
    simp only [hnot, decide_false, Bool.false_eq_true, if_false] at hpc'
    by_cases hi : i < 5
    · simp [hi] at hpc'
    · exact hnot (hok hasync (by omega) c hc r hr)
  · next ok hpc =>
    obtain ⟨c, hc, hs⟩ := Option.bind_eq_some_iff.mp hs
    cases hs
    have hreached := fun hasync => h.serving hasync (.inl ⟨ok, hpc⟩)
    have hset : Inv cfg (s.setRequest c fun r => { r with flushOK := ok }) :=
      h.setRequest (fun _ => rfl) fun hasync => hreached hasync c hc
    refine hset.of_transfer (fun c hc => hc) fun hasync _ => ?_
    exact hset.serving hasync (.inl ⟨ok, hpc⟩)
  · next hpc =>
    obtain ⟨c, hc, hs⟩ := Option.bind_eq_some_iff.mp hs
    cases hs
    have hreached := fun hasync => h.serving hasync (.inr hpc)
    have hset : Inv cfg (s.setRequest c fun r => { r with countDownLatch := true }) :=
      h.setRequest (fun _ => rfl) fun hasync => hreached hasync c hc
    refine hset.of_transfer (fun c => next_lists) fun _ hpc' => ?_
    rcases next_pc s.groupTransfer with ⟨hn, -⟩ | hn <;>
      exact absurd hpc' (by simp [hn])
  · exact absurd hs (by simp)

lemma step_inv {a : Action} (h : Inv cfg s) (hok : Allowed cfg s a)
    (hs : step cfg s a = some s') : Inv cfg s' := by
  cases a with
  | call c env m => exact callStep_inv h hs
  | lock c =>
    obtain ⟨call, hc, hs⟩ := Option.bind_eq_some_iff.mp hs
    exact lockedSteps_inv h hc (.inl hs)
  | getLastMapedFile c =>
    obtain ⟨call, hc, hs⟩ := Option.bind_eq_some_iff.mp hs
    exact lockedSteps_inv h hc (.inr (.inl hs))
  | appendMessage c =>
    obtain ⟨call, hc, hs⟩ := Option.bind_eq_some_iff.mp hs
    exact lockedSteps_inv h hc (.inr (.inr hs))
  | flush c =>
    obtain ⟨call, hc, hs⟩ := Option.bind_eq_some_iff.mp hs
    exact flushStep_inv h hc hs
  | slave c =>
    obtain ⟨call, hc, hs⟩ := Option.bind_eq_some_iff.mp hs
    exact slaveStep_inv h hc hok hs
  | wake c =>
    obtain ⟨call, hc, hs⟩ := Option.bind_eq_some_iff.mp hs
    unfold State.wakeStep at hs
    split at hs
    · next r hr =>
      split at hs
      · next hlatch => exact afterWait_inv h hc hr (fun _ => .inl hlatch) hs
      · exact absurd hs (by simp)
    · exact absurd hs (by simp)
  | timeout c =>
    obtain ⟨call, hc, hs⟩ := Option.bind_eq_some_iff.mp hs
    unfold State.timeoutStep at hs
    split at hs
    · next r hr => exact afterWait_inv h hc hr .inr hs
    · exact absurd hs (by simp)
  | groupCommit => exact groupCommitStep_inv h hs
  | groupTransfer => exact groupTransferStep_inv h hok hs
  | notifyTransferSome offset =>
    cases hs
    have hle := le_max_left s.push2SlaveMaxOffset offset
    exact ⟨fun c call hc => (h.calls c call hc).mono hle, h.group, h.listed,
      fun hasync hpc c hc r hr => (h.serving hasync hpc c hc r hr).trans hle⟩
  | connections n =>
    cases hs
    exact ⟨h.calls, h.group, h.listed, h.serving⟩

end Invariant

/-! ### Runs -/

lemma inv_started {cfg : SyncConfig} (log : Log) : Inv cfg (started log) where
  calls c call hc := by simp [started] at hc
  group _ := ⟨rfl, rfl⟩
  listed c hc := by simp [started] at hc
  serving _ _ c hc := by simp [started] at hc

end CloudMQ.SyncMaster
