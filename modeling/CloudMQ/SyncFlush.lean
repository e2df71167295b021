import CloudMQ.Agreement
import CloudMQ.Flush
import CloudMQ.GroupCommit

/-!
`SYNC_FLUSH`: what `PUT_OK` says about the disk.

`doCommit` tries two commits for a request, each of which goes through one file, and opens the
latch whatever they came to; the caller does not look at the flag of an open latch. So `PUT_OK`
means that the message was forced as long as the end of the message is never more than two files
ahead of `committedWhere` when the service takes the request up, and `committedWhere` never goes
back.
-/

namespace CloudMQ.SyncFlush

open CloudMQ.Buffer CloudMQ.Message CloudMQ.Record CloudMQ.Segment CloudMQ.Chain CloudMQ.Flush
open CloudMQ.CommitLog CloudMQ.Append CloudMQ.Agreement CloudMQ.GroupCommit CloudMQ.Runs

/-! ### How far a commit goes -/

section Within

variable {Mem : Type} {q q' : MapedFileQueue Mem} {n k : ℕ}

/-- The offset is reached, or it lies in the next `k` files from the one of `committedWhere`. -/
def Within (q : MapedFileQueue Mem) (k n : ℕ) : Prop :=
  n ≤ q.committedWhere ∨ n ≤ (q.committedWhere / q.mapedFileSize + k) * q.mapedFileSize

lemma Within.reached (h : Within q 0 n) : n ≤ q.committedWhere := by
  rcases h with h | h
  · exact h
  · rw [Nat.add_zero] at h
    exact h.trans (Nat.div_mul_le_self _ _)

lemma Within.mono (h : Within q k n) (hle : q.committedWhere ≤ q'.committedWhere)
    (hsize : q'.mapedFileSize = q.mapedFileSize) : Within q' k n := by
  rcases h with h | h
  · exact .inl (h.trans hle)
  · refine .inr (h.trans ?_)
    rw [hsize]
    exact Nat.mul_le_mul_right _ (Nat.add_le_add_right (Nat.div_le_div_right hle) k)

/-- `commit(0)` goes to the end of what is written in the file. -/
lemma committedWhere_commit (h : FlushInv q) {f : MapedFile Mem}
    (hf : q.mapedFiles[q.commitIndex]? = some f) :
    (q.commit 0).committedWhere = f.fileFromOffset + f.wrotePostion := by
  have hp := h.positions f (List.mem_of_getElem? hf)
  unfold MapedFileQueue.commit MapedFile.commit
  simp only [hf]
  by_cases hab : f.isAbleToFlush q.mapedFileSize 0
  · rw [if_pos hab]
    split <;> rfl
  · rw [if_neg hab]
    simp only [MapedFile.isAbleToFlush, Int.lt_irrefl, if_false] at hab
    split at hab
    · exact absurd rfl hab
    · simp only [decide_eq_true_eq] at hab
      omega

/-- One commit brings an offset one file closer. -/
lemma Within.commit (h : FlushInv q) (hat : ¬ AtEnd q) (hn : n ≤ q.getMaxOffset)
    (hw : Within q (k + 1) n) : Within (q.commit 0) k n := by
  cases hfiles : q.mapedFiles with
  | nil =>
    have : q.getMaxOffset = 0 := by simp [MapedFileQueue.getMaxOffset, hfiles]
    exact .inl (by omega)
  | cons first rest =>
    obtain ⟨f, hf⟩ : ∃ f, q.mapedFiles[q.commitIndex]? = some f := by
      rcases commitIndex_spec h.chained h.le_max hfiles with ⟨f, hf, -⟩ | ⟨h0, -⟩
      · exact ⟨f, hf⟩
      · exact ⟨first, by rw [h0, hfiles]; rfl⟩
    have hwhere := committedWhere_commit h hf
    have hmem := List.mem_of_getElem? hf
    by_cases hreached : n ≤ (q.commit 0).committedWhere
    · exact .inl hreached
    have hnotLast : q.commitIndex + 1 < q.mapedFiles.length := by
      have hlt := (List.getElem?_eq_some_iff.mp hf).1
      by_contra hge
      have hlast : q.mapedFiles.getLast? = some f := by
        rw [List.getLast?_eq_getElem?, show q.mapedFiles.length - 1 = q.commitIndex by omega, hf]
      rw [MapedFileQueue.getMaxOffset, hlast] at hn
      simp only at hn
      omega
    have hfull : f.wrotePostion = q.mapedFileSize := by
      have hi : (extents q)[q.commitIndex]? = some (extent f) := by
        rw [extents, List.getElem?_map, hf]; rfl
      exact h.chained.full hi (by simpa [extents] using hnotLast)
    have hlt : q.committedWhere < f.fileFromOffset + q.mapedFileSize := by
      rcases commitIndex_spec h.chained h.le_max hfiles with ⟨f', hf', -, h2⟩ | ⟨h0, h1⟩
      · rw [hf, Option.some.injEq] at hf'
        rwa [hf']
      · have hfirst : f = first := by
          rw [h0, hfiles] at hf; simpa using hf.symm
        have hp := h.positions f hmem
        -- the end of several files is excluded
        have htwo := Nat.mul_le_mul_right q.mapedFileSize
          (show 2 ≤ q.mapedFiles.length by omega)
        have hpos := q.size_pos
        rw [← hfirst] at h1
        rcases h1 with h1 | h1
        · omega
        · rcases (commit_where h hf).1 hat with h3 | h3 <;> omega
    obtain ⟨j, hj⟩ := h.chained.aligned (extent f) (List.mem_map_of_mem hmem)
    change f.fileFromOffset = q.mapedFileSize * j at hj
    have hnext : q.committedWhere / q.mapedFileSize + 1 ≤
        (q.commit 0).committedWhere / q.mapedFileSize := by
      have h1 : q.committedWhere / q.mapedFileSize < j + 1 := by
        rw [Nat.div_lt_iff_lt_mul q.size_pos, Nat.succ_mul, mul_comm, ← hj]
        exact hlt
      have h2 : (q.commit 0).committedWhere / q.mapedFileSize = j + 1 := by
        rw [hwhere, hfull, hj, ← Nat.mul_succ, Nat.mul_div_cancel_left _ q.size_pos]
      omega
    rcases hw with hw | hw
    · rw [hwhere, hfull] at hreached
      omega
    · refine .inr (hw.trans ?_)
      rw [mapedFileSize_commit]
      exact Nat.mul_le_mul_right _ (by omega)

end Within

/-- What `MapedFile.appendMessage` leaves alone, and how far it writes. -/
structure Filled (size : ℕ) (f f' : MapedFile Bytes) (result : AppendMessageResult) : Prop where
  fileFromOffset : f'.fileFromOffset = f.fileFromOffset
  wrote : f.wrotePostion ≤ f'.wrotePostion
  fill : f'.wrotePostion ≤ size
  committed : f'.committedPosition = f.committedPosition
  forced : f'.forced = f.forced
  available : f'.available = f.available
  next : nextOffset result ≤ f'.fileFromOffset + f'.wrotePostion

lemma filled_appendMessage {maxMessageSize size : ℕ} {memory : ℕ → UInt8} {f f' : MapedFile Bytes}
    {m : MessageExtBrokerInner} {c c' : Counters} {result : AppendMessageResult}
    (hle : f.wrotePostion ≤ size)
    (h : appendMessage maxMessageSize memory size f m c = (c', .ok (result, f'))) :
    Filled size f f' result := by
  unfold appendMessage at h
  split at h
  · next hlt =>
    split at h
    · exact absurd (congrArg Prod.snd h) (by simp)
    · next c₁ result₁ bs hdo =>
      simp only [Prod.mk.injEq, Except.ok.injEq] at h
      obtain ⟨rfl, rfl, rfl⟩ := h
      refine ⟨rfl, Nat.le_add_right _ _, ?_, rfl, rfl, rfl, ?_⟩
      · rcases doAppend_cases hdo with hw | hw | ⟨rfl, -⟩
        · have := hw.fits
          have := hw.wroteBytes
          simp only
          omega
        · have := hw.wroteBytes
          simp only
          omega
        · exact hle
      · unfold nextOffset
        rcases doAppend_cases hdo with hw | hw | ⟨rfl, -⟩
        · rw [hw.wroteOffset, Nat.add_assoc]
        · rw [hw.wroteOffset, Nat.add_assoc]
        · exact Nat.zero_le _
  · simp only [Prod.mk.injEq, Except.ok.injEq] at h
    obtain ⟨-, rfl, rfl⟩ := h
    exact ⟨rfl, le_rfl, hle, rfl, rfl, rfl, Nat.zero_le _⟩

/-! ### The invariant -/

section Invariant

/-- What is known of a call, by where it stands: the end of its message is written, and it is
forced once the request was woken or the answer is `PUT_OK`. -/
def Disk (committedWhere maxOffset : ℕ) (call : Call) : Prop :=
  match call.pc with
  | .start | .getLast _ | .append _ => call.request = none
  | .stored result => call.request = none ∧ nextOffset result ≤ maxOffset
  | .waitFlush result => ∃ r, call.request = some r ∧ r.nextOffset = nextOffset result ∧
      (r.countDownLatch ∨ r.flushOK → r.nextOffset ≤ committedWhere)
  | .flushed result status | .waitSlave result status | .returned result status =>
    status = .PUT_OK → call.message.isWaitStoreMsgOK → nextOffset result ≤ committedWhere
  | .failed _ _ | .thrown _ => True

/-- The call is past the wait for the disk. -/
def Past (call : Call) : Prop :=
  match call.pc with
  | .waitSlave _ _ | .returned _ _ => True
  | _ => False

/-- What is known of the request that the service works on. -/
def Serving (q : MapedFileQueue Bytes) (n : ℕ) : ServicePc → Prop
  | .waiting | .commitOnly => True
  | .check i => i = 0 ∨ i = 1 ∧ Within q 1 n
  | .commit i => i = 0 ∧ Within q 2 n ∨ i = 1 ∧ Within q 1 n
  | .setOK _ | .countDown => n ≤ q.committedWhere

structure Inv (s : State) : Prop where
  flush : FlushInv s.mapedFileQueue
  available : ∀ f ∈ s.mapedFileQueue.mapedFiles, f.available
  calls : ∀ c call, s.calls c = some call →
    Disk s.mapedFileQueue.committedWhere s.mapedFileQueue.getMaxOffset call
  listed : ∀ c ∈ s.groupCommit.requestsRead ++ s.groupCommit.requestsWrite,
    ∃ r, s.requestOf c = some r ∧ r.nextOffset ≤ s.mapedFileQueue.getMaxOffset
  serving : ∀ c ∈ s.groupCommit.requestsRead.head?, ∀ r, s.requestOf c = some r →
    Serving s.mapedFileQueue r.nextOffset s.groupCommit.pc
  idle : s.groupCommit.pc = .waiting ∨ s.groupCommit.pc = .commitOnly →
    s.groupCommit.requestsRead = []
  past : ∀ c ∈ s.groupTransfer.requestsRead ++ s.groupTransfer.requestsWrite,
    ∃ call, s.calls c = some call ∧ Past call

lemma Disk.mono {w w' x x' : ℕ} {call : Call} (h : Disk w x call) (hw : w ≤ w') (hx : x ≤ x') :
    Disk w' x' call := by
  unfold Disk at *
  split at h <;> try exact h
  · exact ⟨h.1, h.2.trans hx⟩
  · obtain ⟨r, h1, h2, h3⟩ := h
    exact ⟨r, h1, h2, fun h4 => (h3 h4).trans hw⟩
  · exact fun h1 h2 => (h h1 h2).trans hw
  · exact fun h1 h2 => (h h1 h2).trans hw
  · exact fun h1 h2 => (h h1 h2).trans hw

lemma Disk.updateRequest {w x : ℕ} {call : Call} {f : GroupCommitRequest → GroupCommitRequest}
    (h : Disk w x call) (hf : ∀ r, (f r).nextOffset = r.nextOffset)
    (hwoken : ∀ r result, call.request = some r → call.pc = .waitFlush result →
      r.nextOffset ≤ w) : Disk w x (call.updateRequest f) := by
  obtain ⟨env, m, pc, request⟩ := call
  cases pc with
  | waitFlush result =>
    obtain ⟨r, h1, h2, -⟩ := h
    simp only at h1
    subst h1
    exact ⟨f r, rfl, (hf r).trans h2, fun _ => (hf r).trans_le (hwoken r result rfl rfl)⟩
  | start => exact (Option.map_eq_none_iff).mpr h
  | getLast first => exact (Option.map_eq_none_iff).mpr h
  | append first => exact (Option.map_eq_none_iff).mpr h
  | stored result => exact ⟨(Option.map_eq_none_iff).mpr h.1, h.2⟩
  | flushed result status => exact h
  | waitSlave result status => exact h
  | returned result status => exact h
  | failed status result => trivial
  | thrown e => trivial

lemma Serving.mono {q q' : MapedFileQueue Bytes} {n : ℕ} {pc : ServicePc} (h : Serving q n pc)
    (hle : q.committedWhere ≤ q'.committedWhere) (hsize : q'.mapedFileSize = q.mapedFileSize) :
    Serving q' n pc := by
  cases pc with
  | waiting => trivial
  | commitOnly => trivial
  | check i => exact h.imp_right fun ⟨h1, h2⟩ => ⟨h1, h2.mono hle hsize⟩
  | commit i =>
    exact h.imp (fun ⟨h1, h2⟩ => ⟨h1, h2.mono hle hsize⟩) fun ⟨h1, h2⟩ => ⟨h1, h2.mono hle hsize⟩
  | setOK ok => exact Nat.le_trans h hle
  | countDown => exact Nat.le_trans h hle

/-- A queue that only grows and is only committed further. -/
structure Grows (q q' : MapedFileQueue Bytes) : Prop where
  flush : FlushInv q'
  available : ∀ f ∈ q'.mapedFiles, f.available
  committed : q.committedWhere ≤ q'.committedWhere
  max : q.getMaxOffset ≤ q'.getMaxOffset
  size : q'.mapedFileSize = q.mapedFileSize

lemma Inv.grows_refl {s : State} (h : Inv s) : Grows s.mapedFileQueue s.mapedFileQueue :=
  ⟨h.flush, h.available, le_rfl, le_rfl, rfl⟩

/-- **The step of a call.** The call changes as its own step says; its request stays, a request
that is put is one of a written message, and nothing else changes but the queue. -/
lemma Inv.of_call {s s' : State} {c : ℕ} {call' : Call} (h : Inv s)
    (hq : Grows s.mapedFileQueue s'.mapedFileQueue)
    (hcalls : s'.calls = Function.update s.calls c (some call'))
    (hdisk : Disk s'.mapedFileQueue.committedWhere s'.mapedFileQueue.getMaxOffset call')
    (hrequest : ∀ r, s.requestOf c = some r → call'.request = some r)
    (hpast : ∀ call, s.calls c = some call → Past call → Past call')
    (hgroup : s'.groupCommit = s.groupCommit ∨
      s'.groupCommit = { s.groupCommit with requestsWrite := s.groupCommit.requestsWrite ++ [c] } ∧
        ∃ r, call'.request = some r ∧ r.nextOffset ≤ s'.mapedFileQueue.getMaxOffset)
    (htransfer : s'.groupTransfer = s.groupTransfer ∨
      s'.groupTransfer =
        { s.groupTransfer with requestsWrite := s.groupTransfer.requestsWrite ++ [c] } ∧
        Past call') : Inv s' := by
  have hreq : ∀ c' r, s.requestOf c' = some r → s'.requestOf c' = some r := by
    intro c' r hr
    by_cases hc : c' = c
    · subst hc
      simp [State.requestOf, hcalls, hrequest r hr]
    · rw [State.requestOf, hcalls, Function.update_of_ne hc]
      exact hr
  have hlisted : ∀ c' ∈ s.groupCommit.requestsRead ++ s.groupCommit.requestsWrite,
      ∃ r, s'.requestOf c' = some r ∧ r.nextOffset ≤ s'.mapedFileQueue.getMaxOffset := by
    intro c' hc'
    obtain ⟨r, hr, hle⟩ := h.listed c' hc'
    exact ⟨r, hreq c' r hr, hle.trans hq.max⟩
  have hread : s'.groupCommit.requestsRead = s.groupCommit.requestsRead ∧
      s'.groupCommit.pc = s.groupCommit.pc := by
    rcases hgroup with hg | ⟨hg, -⟩ <;> rw [hg] <;> exact ⟨rfl, rfl⟩
  refine ⟨hq.flush, hq.available, fun c' call hc' => ?_, fun c' hc' => ?_, fun c' hc' r hr => ?_,
    fun hpc => ?_, fun c' hc' => ?_⟩
  · rw [hcalls] at hc'
    by_cases hc : c' = c
    · subst hc
      rw [Function.update_self, Option.some.injEq] at hc'
      exact hc' ▸ hdisk
    · rw [Function.update_of_ne hc] at hc'
      exact (h.calls c' call hc').mono hq.committed hq.max
  · rcases hgroup with hg | ⟨hg, r, hr, hle⟩
    · rw [hg] at hc'
      exact hlisted c' hc'
    · rw [hg, ← List.append_assoc] at hc'
      rcases List.mem_append.mp hc' with hc' | hc'
      · exact hlisted c' hc'
      · rw [List.mem_singleton.mp hc']
        exact ⟨r, by simp [State.requestOf, hcalls, hr], hle⟩
  · rw [hread.1] at hc'
    rw [hread.2]
    obtain ⟨r', hr', -⟩ := h.listed c'
      (List.mem_append_left _ (List.mem_of_mem_head? hc'))
    have heq := hreq c' r' hr'
    rw [hr, Option.some.injEq] at heq
    rw [heq]
    exact (h.serving c' hc' r' hr').mono hq.committed hq.size
  · rw [hread.2] at hpc
    rw [hread.1]
    exact h.idle hpc
  · have hold : c' ∈ s.groupTransfer.requestsRead ++ s.groupTransfer.requestsWrite →
        ∃ call, s'.calls c' = some call ∧ Past call := by
      intro hc'
      obtain ⟨call, hcall, hp⟩ := h.past c' hc'
      by_cases hc : c' = c
      · subst hc
        exact ⟨call', by simp [hcalls], hpast call hcall hp⟩
      · exact ⟨call, by rw [hcalls, Function.update_of_ne hc]; exact hcall, hp⟩
    rcases htransfer with ht | ⟨ht, hp⟩
    · rw [ht] at hc'
      exact hold hc'
    · rw [ht, ← List.append_assoc] at hc'
      rcases List.mem_append.mp hc' with hc' | hc'
      · exact hold hc'
      · rw [List.mem_singleton.mp hc']
        exact ⟨call', by simp [hcalls], hp⟩

/-- The step of the group commit that leaves the requests alone. -/
lemma Inv.of_group {s : State} (h : Inv s) {q : MapedFileQueue Bytes}
    (hq : Grows s.mapedFileQueue q) {service : Service}
    (hlists : ∀ c ∈ service.requestsRead ++ service.requestsWrite,
      c ∈ s.groupCommit.requestsRead ++ s.groupCommit.requestsWrite)
    (hserving : ∀ c ∈ service.requestsRead.head?, ∀ r, s.requestOf c = some r →
      Serving q r.nextOffset service.pc)
    (hidle : service.pc = .waiting ∨ service.pc = .commitOnly → service.requestsRead = []) :
    Inv { s.setQueue q with groupCommit := service } where
  flush := hq.flush
  available := hq.available
  calls c call hc := (h.calls c call hc).mono hq.committed hq.max
  listed c hc := by
    obtain ⟨r, hr, hle⟩ := h.listed c (hlists c hc)
    exact ⟨r, hr, hle.trans hq.max⟩
  serving := hserving
  idle := hidle
  past := h.past

lemma Inv.of_transfer {s : State} (h : Inv s) {service : Service}
    (hlists : ∀ c ∈ service.requestsRead ++ service.requestsWrite,
      c ∈ s.groupTransfer.requestsRead ++ s.groupTransfer.requestsWrite) :
    Inv { s with groupTransfer := service } where
  flush := h.flush
  available := h.available
  calls := h.calls
  listed := h.listed
  serving := h.serving
  idle := h.idle
  past c hc := h.past c (hlists c hc)

lemma requestOf_setRequest {s : State} {c c' : ℕ} {f : GroupCommitRequest → GroupCommitRequest} :
    (s.setRequest c f).requestOf c' =
      if c' = c then (s.requestOf c').map f else s.requestOf c' := by
  unfold State.requestOf State.setRequest
  by_cases hc : c' = c
  · subst hc
    simp only [if_true, Function.update_self]
    cases s.calls c' <;> rfl
  · simp only [if_neg hc, Function.update_of_ne hc]

/-- A flag or a latch may be set once the message is forced, or behind the wait for the disk. -/
lemma Inv.setRequest {s : State} (h : Inv s) {c : ℕ}
    {f : GroupCommitRequest → GroupCommitRequest} (hf : ∀ r, (f r).nextOffset = r.nextOffset)
    (hwoken : ∀ call r result, s.calls c = some call → call.request = some r →
      call.pc = .waitFlush result → r.nextOffset ≤ s.mapedFileQueue.committedWhere) :
    Inv (s.setRequest c f) where
  flush := h.flush
  available := h.available
  calls c' call' hc' := by
    by_cases hc : c' = c
    · subst hc
      simp only [State.setRequest, Function.update_self, Option.map_eq_some_iff] at hc'
      obtain ⟨call, hcall, rfl⟩ := hc'
      exact (h.calls c' call hcall).updateRequest hf fun r result => hwoken call r result hcall
    · simp only [State.setRequest, Function.update_of_ne hc] at hc'
      exact h.calls c' call' hc'
  listed c' hc' := by
    obtain ⟨r, hr, hle⟩ := h.listed c' hc'
    rw [requestOf_setRequest]
    split
    · exact ⟨f r, by rw [hr]; rfl, (hf r).trans_le hle⟩
    · exact ⟨r, hr, hle⟩
  serving c' hc' r hr := by
    rw [requestOf_setRequest] at hr
    split at hr
    · obtain ⟨r₀, hr₀, rfl⟩ := Option.map_eq_some_iff.mp hr
      rw [hf]
      exact h.serving c' hc' r₀ hr₀
    · exact h.serving c' hc' r hr
  idle := h.idle
  past c' hc' := by
    obtain ⟨call, hcall, hp⟩ := h.past c' hc'
    by_cases hc : c' = c
    · subst hc
      exact ⟨call.updateRequest f, by simp [State.setRequest, hcall], hp⟩
    · exact ⟨call, by simp only [State.setRequest, Function.update_of_ne hc]; exact hcall, hp⟩

/-! ### The queue in a step -/

lemma grows_getLast {q : MapedFileQueue Bytes} (h : FlushInv q)
    (ha : ∀ f ∈ q.mapedFiles, f.available) (fresh : Option Bytes) :
    Grows q (q.getLastMapedFile 0 fresh).2 := by
  have hflush := h.getLastMapedFile 0 fresh
  revert hflush
  unfold MapedFileQueue.getLastMapedFile
  split
  · exact fun _ => ⟨h, ha, le_rfl, le_rfl, rfl⟩
  · next createOffset hc =>
    cases fresh with
    | none => exact fun _ => ⟨h, ha, le_rfl, le_rfl, rfl⟩
    | some mem =>
      refine fun hflush => ⟨hflush, fun f hf => ?_, le_rfl, ?_, rfl⟩
      · rcases List.mem_append.mp hf with hf | hf
        · exact ha f hf
        · rw [List.mem_singleton.mp hf]
      · have hstart := max_le_createOffset h.chained hc
        simp only [MapedFileQueue.getMaxOffset, List.getLast?_append, List.getLast?_singleton,
          Option.some_or] at hstart ⊢
        exact hstart

lemma grows_setLast {q : MapedFileQueue Bytes} {f f' : MapedFile Bytes}
    {result : AppendMessageResult} (h : FlushInv q) (ha : ∀ f ∈ q.mapedFiles, f.available)
    (hlast : q.mapedFiles.getLast? = some f) (hf : Filled q.mapedFileSize f f' result) :
    Grows q (q.setLast f') ∧ nextOffset result ≤ (q.setLast f').getMaxOffset := by
  have hmax : (q.setLast f').getMaxOffset = f'.fileFromOffset + f'.wrotePostion := by
    simp [MapedFileQueue.getMaxOffset, MapedFileQueue.setLast]
  refine ⟨⟨h.setLast hlast hf.fileFromOffset hf.wrote hf.fill hf.committed hf.forced hf.available,
    forall_mem_setLast ha ?_, le_rfl, ?_, rfl⟩, hmax ▸ hf.next⟩
  · rw [hf.available]
    exact ha f (List.mem_of_getLast? hlast)
  · rw [hmax, MapedFileQueue.getMaxOffset, hlast]
    have h1 := hf.fileFromOffset
    have h2 := hf.wrote
    simp only
    omega

lemma grows_commit {q : MapedFileQueue Bytes} (h : FlushInv q)
    (ha : ∀ f ∈ q.mapedFiles, f.available) (hat : ¬ AtEnd q) : Grows q (q.commit 0) := by
  have hh : Holds q := fun f hf => ha f (List.mem_of_getElem? hf)
  obtain ⟨h1, h2⟩ := h.commit hh 0
  refine ⟨h1, fun f hf => ?_, h2.mpr hat, ?_, mapedFileSize_commit 0⟩
  · unfold MapedFileQueue.commit at hf
    split at hf
    · exact ha f hf
    · next g hg =>
      rcases List.mem_or_eq_of_mem_set hf with hf | rfl
      · exact ha f hf
      · rw [commit_available]
        exact ha g (List.mem_of_getElem? hg)
  · rw [getMaxOffset_eq, getMaxOffset_eq, extents_commit]

/-! ### Every step -/

/-- The condition: no commit is tried at the end of the last of several files, and a request that
the service takes up ends in the file of `committedWhere` or in the next one. -/
def AllowedAt (s : State) : ServicePc → Prop
  | .commitOnly | .commit _ => ¬ AtEnd s.mapedFileQueue
  | .check i => i = 0 → ∀ c ∈ s.groupCommit.requestsRead.head?, ∀ r ∈ s.requestOf c,
      Within s.mapedFileQueue 2 r.nextOffset
  | .waiting | .setOK _ | .countDown => True

def Allowed (s : State) : Action → Prop
  | .groupCommit => AllowedAt s s.groupCommit.pc
  | _ => True

instance {Mem : Type} (q : MapedFileQueue Mem) (k n : ℕ) : Decidable (Within q k n) :=
  inferInstanceAs (Decidable (_ ∨ _))

instance (s : State) : (pc : ServicePc) → Decidable (AllowedAt s pc)
  | .commitOnly => inferInstanceAs (Decidable (¬ AtEnd s.mapedFileQueue))
  | .commit _ => inferInstanceAs (Decidable (¬ AtEnd s.mapedFileQueue))
  | .check i => inferInstanceAs (Decidable (i = 0 → ∀ c ∈ s.groupCommit.requestsRead.head?,
      ∀ r ∈ s.requestOf c, Within s.mapedFileQueue 2 r.nextOffset))
  | .waiting => .isTrue trivial
  | .setOK _ => .isTrue trivial
  | .countDown => .isTrue trivial

instance (s : State) : (a : Action) → Decidable (Allowed s a)
  | .groupCommit => inferInstanceAs (Decidable (AllowedAt s s.groupCommit.pc))
  | .call _ _ _ => .isTrue trivial
  | .lock _ => .isTrue trivial
  | .getLastMapedFile _ => .isTrue trivial
  | .appendMessage _ => .isTrue trivial
  | .flush _ => .isTrue trivial
  | .slave _ => .isTrue trivial
  | .wake _ => .isTrue trivial
  | .timeout _ => .isTrue trivial
  | .groupTransfer => .isTrue trivial
  | .notifyTransferSome _ => .isTrue trivial
  | .connections _ => .isTrue trivial

variable {cfg : SyncConfig} {s s' : State}

lemma requestOf_eq {c : ℕ} {call : Call} (hc : s.calls c = some call) :
    s.requestOf c = call.request := by rw [State.requestOf, hc]; rfl

/-- A call moves on and keeps its request. -/
lemma Inv.setPc (h : Inv s) {c : ℕ} {call : Call} (pc : Pc) (hc : s.calls c = some call)
    (hdisk : Disk s.mapedFileQueue.committedWhere s.mapedFileQueue.getMaxOffset
      { call with pc := pc })
    (hpast : Past call → Past { call with pc := pc }) : Inv (s.setPc c call pc) := by
  refine h.of_call h.grows_refl rfl hdisk (fun r hr => ?_) (fun call' hc' hp => ?_) (.inl rfl)
    (.inl rfl)
  · rwa [requestOf_eq hc] at hr
  · rw [hc, Option.some.injEq] at hc'
    exact hpast (hc' ▸ hp)

/-- A step of a call that has no request yet. -/
lemma Inv.of_early (h : Inv s) {c : ℕ} {call call' : Call} (hc : s.calls c = some call)
    (hnone : call.request = none) (hpast : ¬ Past call)
    (hq : Grows s.mapedFileQueue s'.mapedFileQueue)
    (hcalls : s'.calls = Function.update s.calls c (some call'))
    (hdisk : Disk s'.mapedFileQueue.committedWhere s'.mapedFileQueue.getMaxOffset call')
    (hgroup : s'.groupCommit = s.groupCommit) (htransfer : s'.groupTransfer = s.groupTransfer) :
    Inv s' := by
  refine h.of_call hq hcalls hdisk (fun r hr => ?_) (fun call₁ hc₁ hp => ?_) (.inl hgroup)
    (.inl htransfer)
  · rw [requestOf_eq hc, hnone] at hr
    exact absurd hr (by simp)
  · rw [hc, Option.some.injEq] at hc₁
    exact absurd (hc₁ ▸ hp) hpast

lemma callStep_inv (h : Inv s) {c : ℕ} {env : Env} {m : MessageExtBrokerInner}
    (hs : s.callStep cfg c env m = some s') : Inv s' := by
  unfold State.callStep at hs
  split at hs
  · exact absurd hs (by simp)
  · next hnone =>
    have hrequest : ∀ call' : Call, ∀ r, s.requestOf c = some r → call'.request = some r := by
      intro call' r hr
      rw [State.requestOf, hnone] at hr
      exact absurd hr (by simp)
    have hpast : ∀ call' call, s.calls c = some call → Past call → Past call' := by
      intro call' call hc
      rw [hnone] at hc
      exact absurd hc (by simp)
    split at hs <;> cases hs
    · exact h.of_call h.grows_refl rfl trivial (hrequest _) (hpast _) (.inl rfl) (.inl rfl)
    · exact h.of_call h.grows_refl rfl rfl (hrequest _) (hpast _) (.inl rfl) (.inl rfl)

lemma lockStep_inv (h : Inv s) {c : ℕ} {call : Call} (hc : s.calls c = some call)
    (hs : s.lockStep c call = some s') : Inv s' := by
  unfold State.lockStep at hs
  split at hs
  · next hlock hpc =>
    cases hs
    have hnone : call.request = none := by simpa [Disk, hpc] using h.calls c call hc
    refine h.of_early hc hnone (by simp [Past, hpc]) h.grows_refl rfl ?_ rfl rfl
    exact hnone
  · exact absurd hs (by simp)

lemma getLastStep_inv (h : Inv s) {c : ℕ} {call : Call} (hc : s.calls c = some call)
    (hs : s.getLastStep c call = some s') : Inv s' := by
  unfold State.getLastStep at hs
  split at hs
  · next first hpc =>
    have hnone : call.request = none := by simpa [Disk, hpc] using h.calls c call hc
    have hgrows := fun fresh => grows_getLast h.flush h.available fresh
    have hpast : ¬ Past call := by simp [Past, hpc]
    simp only at hs
    split at hs
    · next q hq =>
      cases hs
      have hg : Grows s.mapedFileQueue q := by
        rw [show q = _ from (congrArg Prod.snd hq).symm]
        exact hgrows _
      exact h.of_early hc hnone hpast hg rfl trivial rfl rfl
    · next f q hq =>
      cases hs
      have hg : Grows s.mapedFileQueue q := by
        rw [show q = _ from (congrArg Prod.snd hq).symm]
        exact hgrows _
      refine h.of_early hc hnone hpast hg rfl ?_ rfl rfl
      exact hnone
  · exact absurd hs (by simp)

lemma appendStep_inv (h : Inv s) {c : ℕ} {call : Call} (hc : s.calls c = some call)
    (hs : s.appendStep cfg c call = some s') : Inv s' := by
  unfold State.appendStep at hs
  split at hs
  · next first f hpc hlast =>
    have hnone : call.request = none := by simpa [Disk, hpc] using h.calls c call hc
    have hpast : ¬ Past call := by simp [Past, hpc]
    simp only at hs
    split at hs
    · cases hs
      exact h.of_early hc hnone hpast h.grows_refl rfl trivial rfl rfl
    · next counters result f' happ =>
      cases hs
      have hfill := filled_appendMessage
        (wrote_le h.flush.chained (List.mem_of_getLast? hlast)) happ
      obtain ⟨hg, hnext⟩ := grows_setLast h.flush h.available hlast hfill
      refine h.of_early hc hnone hpast hg rfl ?_ rfl rfl
      unfold State.afterAppend
      split
      · exact ⟨hnone, hnext⟩
      · exact ⟨hnone, hnext⟩
      · exact hnone
      · trivial
      · trivial
  · exact absurd hs (by simp)

lemma flushStep_inv (hsync : cfg.flushDiskType = .SYNC_FLUSH) (h : Inv s) {c : ℕ} {call : Call}
    (hc : s.calls c = some call) (hs : s.flushStep cfg c call = some s') : Inv s' := by
  unfold State.flushStep at hs
  split at hs
  · next result hpc =>
    obtain ⟨hnone, hnext⟩ : call.request = none ∧
        nextOffset result ≤ s.mapedFileQueue.getMaxOffset := by
      simpa [Disk, hpc] using h.calls c call hc
    have hpast : ¬ Past call := by simp [Past, hpc]
    split at hs
    · cases hs
      refine h.of_call h.grows_refl rfl ⟨_, rfl, rfl, by simp⟩ (fun r hr => ?_)
        (fun call₁ hc₁ hp => ?_) (.inr ⟨rfl, _, rfl, hnext⟩) (.inl rfl)
      · rw [requestOf_eq hc, hnone] at hr
        exact absurd hr (by simp)
      · rw [hc, Option.some.injEq] at hc₁
        exact absurd (hc₁ ▸ hp) hpast
    · next hwait =>
      cases hs
      refine h.of_early hc hnone hpast h.grows_refl rfl ?_ rfl rfl
      exact fun _ hw => absurd ⟨hsync, hw⟩ hwait
  · exact absurd hs (by simp)

lemma slaveStep_inv (h : Inv s) {c : ℕ} {call : Call} (hc : s.calls c = some call)
    (hs : s.slaveStep cfg c call = some s') : Inv s' := by
  unfold State.slaveStep at hs
  split at hs
  · next result status hpc =>
    have hdisk : status = .PUT_OK → call.message.isWaitStoreMsgOK →
        nextOffset result ≤ s.mapedFileQueue.committedWhere := by
      simpa [Disk, hpc] using h.calls c call hc
    split at hs
    · split at hs
      · cases hs
        refine h.of_call h.grows_refl rfl hdisk (fun r hr => ?_) (fun _ _ _ => trivial) (.inl rfl)
          (.inr ⟨rfl, trivial⟩)
        rw [requestOf_eq hc] at hr
        simp [hr]
      · cases hs
        exact h.setPc (.returned result .SLAVE_NOT_AVAILABLE) hc
          (fun hst => absurd hst (by simp)) fun _ => trivial
    · cases hs
      exact h.setPc (.returned result status) hc hdisk fun _ => trivial
  · exact absurd hs (by simp)

/-- A wait ends with the answer of the latch or of the flag. -/
lemma afterWait_inv (h : Inv s) {c : ℕ} {call : Call} (hc : s.calls c = some call)
    {r : GroupCommitRequest} (hr : call.request = some r) {answer : Bool}
    (hanswer : answer = true → r.countDownLatch ∨ r.flushOK)
    (hs : (State.afterWait call.pc answer).map (s.setPc c call) = some s') : Inv s' := by
  obtain ⟨pc, hpc, rfl⟩ := Option.map_eq_some_iff.mp hs
  have hdisk := h.calls c call hc
  cases hold : call.pc with
  | waitFlush result =>
    obtain ⟨r', hr', hnext, hwoken⟩ : ∃ r, call.request = some r ∧
        r.nextOffset = nextOffset result ∧ (r.countDownLatch ∨ r.flushOK →
          r.nextOffset ≤ s.mapedFileQueue.committedWhere) := by
      simpa only [Disk, hold] using hdisk
    rw [hr, Option.some.injEq] at hr'
    subst hr'
    simp only [State.afterWait, hold, Option.some.injEq] at hpc
    subst hpc
    refine h.setPc _ hc (fun hst _ => ?_) fun hp => by simp [Past, hold] at hp
    rw [← hnext]
    refine hwoken (hanswer ?_)
    by_contra hne
    simp [hne] at hst
  | waitSlave result status =>
    have hput : status = .PUT_OK → call.message.isWaitStoreMsgOK →
        nextOffset result ≤ s.mapedFileQueue.committedWhere := by
      simpa only [Disk, hold] using hdisk
    simp only [State.afterWait, hold, Option.some.injEq] at hpc
    subst hpc
    refine h.setPc _ hc (fun hst => hput ?_) fun _ => trivial
    by_contra hne
    split at hst
    · exact hne hst
    · exact absurd hst (by simp)
  | _ => simp [State.afterWait, hold] at hpc

lemma wakeStep_inv (h : Inv s) {c : ℕ} {call : Call} (hc : s.calls c = some call)
    (hs : s.wakeStep c call = some s') : Inv s' := by
  unfold State.wakeStep at hs
  split at hs
  · next r hr =>
    split at hs
    · next hlatch => exact afterWait_inv h hc hr (fun _ => .inl hlatch) hs
    · exact absurd hs (by simp)
  · exact absurd hs (by simp)

lemma timeoutStep_inv (h : Inv s) {c : ℕ} {call : Call} (hc : s.calls c = some call)
    (hs : s.timeoutStep c call = some s') : Inv s' := by
  unfold State.timeoutStep at hs
  split at hs
  · next r hr => exact afterWait_inv h hc hr .inr hs
  · exact absurd hs (by simp)

lemma swapRequests_lists {service : Service} {empty : ServicePc} {c : ℕ}
    (hc : c ∈ (service.swapRequests empty).requestsRead ++
      (service.swapRequests empty).requestsWrite) :
    c ∈ service.requestsRead ++ service.requestsWrite := by
  rw [List.mem_append] at *
  exact hc.symm

lemma next_lists {service : Service} {c : ℕ}
    (hc : c ∈ service.next.requestsRead ++ service.next.requestsWrite) :
    c ∈ service.requestsRead ++ service.requestsWrite := by
  rw [List.mem_append] at *
  exact hc.imp_left List.mem_of_mem_tail

lemma next_pc (service : Service) : service.next.pc = .waiting ∧ service.next.requestsRead = [] ∨
    service.next.pc = .check 0 := by
  unfold Service.next
  by_cases h : service.requestsRead.tail = []
  · exact .inl ⟨if_pos h, h⟩
  · exact .inr (if_neg h)

/-- The group commit keeps the invariant. -/
lemma groupCommitStep_inv (h : Inv s) (hok : Allowed s .groupCommit)
    (hs : s.groupCommitStep = some s') : Inv s' := by
  unfold State.groupCommitStep at hs
  simp only at hs
  split at hs
  · next hpc =>
    cases hs
    refine h.of_group h.grows_refl (fun c => swapRequests_lists) (fun c hc r hr => ?_)
      fun hidle => ?_
    · unfold Service.swapRequests at hc ⊢
      split
      · trivial
      · exact .inl rfl
    · unfold Service.swapRequests at hidle ⊢
      by_contra hne
      simp [hne] at hidle
  · next hpc =>
    cases hs
    simp only [Allowed, hpc, AllowedAt] at hok
    refine h.of_group (grows_commit h.flush h.available hok) (fun c hc => hc)
      (fun c hc r hr => trivial) fun _ => h.idle (.inr hpc)
  · next i hpc =>
    obtain ⟨c, hc, hs⟩ := Option.bind_eq_some_iff.mp hs
    obtain ⟨r, hr, hs⟩ := Option.bind_eq_some_iff.mp hs
    cases hs
    have hserving := h.serving c hc r hr
    rw [hpc] at hserving
    simp only [Allowed, hpc, AllowedAt] at hok
    refine h.of_group h.grows_refl (fun c hc => hc) (fun c' hc' r' hr' => ?_) fun hidle => ?_
    · rw [Option.mem_def] at hc'
      rw [hc, Option.some.injEq] at hc'
      subst hc'
      rw [hr, Option.some.injEq] at hr'
      subst hr'
      by_cases hreached : r.nextOffset ≤ s.mapedFileQueue.committedWhere
      · simp only [hreached, decide_true, if_true]
        exact hreached
      · simp only [hreached, decide_false, Bool.false_eq_true, if_false]
        rcases hserving with hi | ⟨hi, hwithin⟩
        · exact .inl ⟨hi, hok hi c hc r hr⟩
        · exact .inr ⟨hi, hwithin⟩
    · by_cases hreached : r.nextOffset ≤ s.mapedFileQueue.committedWhere <;>
        simp [hreached] at hidle
  · next i hpc =>
    cases hs
    simp only [Allowed, hpc, AllowedAt] at hok
    refine h.of_group (grows_commit h.flush h.available hok) (fun c hc => hc)
      (fun c hc r hr => ?_) fun hidle => ?_
    · obtain ⟨r', hr', hle⟩ := h.listed c (List.mem_append_left _ (List.mem_of_mem_head? hc))
      rw [hr, Option.some.injEq] at hr'
      subst hr'
      have hserving := h.serving c hc r hr
      rw [hpc] at hserving
      rcases hserving with ⟨rfl, hwithin⟩ | ⟨rfl, hwithin⟩
      · exact .inr ⟨rfl, hwithin.commit h.flush hok hle⟩
      · exact (hwithin.commit h.flush hok hle).reached
    · split at hidle <;> simp at hidle
  · next ok hpc =>
    obtain ⟨c, hc, hs⟩ := Option.bind_eq_some_iff.mp hs
    cases hs
    have hreached : ∀ r, s.requestOf c = some r →
        r.nextOffset ≤ s.mapedFileQueue.committedWhere := by
      intro r hr
      have hserving := h.serving c hc r hr
      rwa [hpc] at hserving
    have hset : Inv (s.setRequest c fun r => { r with flushOK := ok }) :=
      h.setRequest (fun _ => rfl) fun call r _ hcall hr _ =>
        hreached r ((requestOf_eq hcall).trans hr)
    refine hset.of_group hset.grows_refl (fun c hc => hc) (fun c' hc' r hr => ?_) (by simp)
    have hserving := hset.serving c' hc' r hr
    rwa [show (s.setRequest c _).groupCommit.pc = .setOK ok from hpc] at hserving
  · next hpc =>
    obtain ⟨c, hc, hs⟩ := Option.bind_eq_some_iff.mp hs
    cases hs
    have hreached : ∀ r, s.requestOf c = some r →
        r.nextOffset ≤ s.mapedFileQueue.committedWhere := by
      intro r hr
      have hserving := h.serving c hc r hr
      rwa [hpc] at hserving
    have hset : Inv (s.setRequest c fun r => { r with countDownLatch := true }) :=
      h.setRequest (fun _ => rfl) fun call r _ hcall hr _ =>
        hreached r ((requestOf_eq hcall).trans hr)
    refine hset.of_group hset.grows_refl (fun c => next_lists) (fun c' hc' r hr => ?_)
      fun hidle => ?_
    · rcases next_pc s.groupCommit with ⟨hn, -⟩ | hn <;> rw [hn]
      · trivial
      · exact .inl rfl
    · rcases next_pc s.groupCommit with ⟨-, hn⟩ | hn
      · exact hn
      · rw [hn] at hidle
        simp at hidle

/-- The transfer service serves calls that are past the wait for the disk. -/
lemma groupTransferStep_inv (h : Inv s) (hs : s.groupTransferStep = some s') : Inv s' := by
  have hwoken : ∀ c ∈ s.groupTransfer.requestsRead.head?, ∀ call r result, s.calls c = some call →
      call.request = some r → call.pc = .waitFlush result →
        r.nextOffset ≤ s.mapedFileQueue.committedWhere := by
    intro c hc call r result hcall _ hpc
    obtain ⟨call', hcall', hp⟩ := h.past c
      (List.mem_append_left _ (List.mem_of_mem_head? hc))
    rw [hcall, Option.some.injEq] at hcall'
    simp [Past, ← hcall', hpc] at hp
  unfold State.groupTransferStep at hs
  simp only at hs
  split at hs
  · cases hs
    exact h.of_transfer fun c => swapRequests_lists
  · obtain ⟨c, -, hs⟩ := Option.bind_eq_some_iff.mp hs
    obtain ⟨r, -, hs⟩ := Option.bind_eq_some_iff.mp hs
    cases hs
    exact h.of_transfer fun c hc => hc
  · next ok hpc =>
    obtain ⟨c, hc, hs⟩ := Option.bind_eq_some_iff.mp hs
    cases hs
    have hset : Inv (s.setRequest c fun r => { r with flushOK := ok }) :=
      h.setRequest (fun _ => rfl) (hwoken c hc)
    exact hset.of_transfer fun c hc => hc
  · obtain ⟨c, hc, hs⟩ := Option.bind_eq_some_iff.mp hs
    cases hs
    have hset : Inv (s.setRequest c fun r => { r with countDownLatch := true }) :=
      h.setRequest (fun _ => rfl) (hwoken c hc)
    exact hset.of_transfer fun c => next_lists
  · exact absurd hs (by simp)

lemma step_inv (hsync : cfg.flushDiskType = .SYNC_FLUSH) {a : Action} (h : Inv s)
    (hok : Allowed s a) (hs : step cfg s a = some s') : Inv s' := by
  cases a with
  | call c env m => exact callStep_inv h hs
  | lock c =>
    obtain ⟨call, hc, hs⟩ := Option.bind_eq_some_iff.mp hs
    exact lockStep_inv h hc hs
  | getLastMapedFile c =>
    obtain ⟨call, hc, hs⟩ := Option.bind_eq_some_iff.mp hs
    exact getLastStep_inv h hc hs
  | appendMessage c =>
    obtain ⟨call, hc, hs⟩ := Option.bind_eq_some_iff.mp hs
    exact appendStep_inv h hc hs
  | flush c =>
    obtain ⟨call, hc, hs⟩ := Option.bind_eq_some_iff.mp hs
    exact flushStep_inv hsync h hc hs
  | slave c =>
    obtain ⟨call, hc, hs⟩ := Option.bind_eq_some_iff.mp hs
    exact slaveStep_inv h hc hs
  | wake c =>
    obtain ⟨call, hc, hs⟩ := Option.bind_eq_some_iff.mp hs
    exact wakeStep_inv h hc hs
  | timeout c =>
    obtain ⟨call, hc, hs⟩ := Option.bind_eq_some_iff.mp hs
    exact timeoutStep_inv h hc hs
  | groupCommit => exact groupCommitStep_inv h hok hs
  | groupTransfer => exact groupTransferStep_inv h hs
  | notifyTransferSome offset =>
    cases hs
    exact ⟨h.flush, h.available, h.calls, h.listed, h.serving, h.idle, h.past⟩
  | connections n =>
    cases hs
    exact ⟨h.flush, h.available, h.calls, h.listed, h.serving, h.idle, h.past⟩

end Invariant

/-! ### Runs -/

/-- Nobody has called yet. -/
def started (log : Log) : State := { commitLog := log }

lemma inv_started {log : Log} (h : Settled log.mapedFileQueue) : Inv (started log) where
  flush := h.flushInv
  available f hf := (h.files f hf).2.2
  calls c call hc := by simp [started] at hc
  listed c hc := by simp [started] at hc
  serving c hc := by simp [started] at hc
  idle _ := rfl
  past c hc := by simp [started] at hc

/-- **Durability of `SYNC_FLUSH`.** Along every run that meets the condition, a caller that waits
gets `PUT_OK` only when its message lies before `committedWhere`, in bytes that were forced;
otherwise it gets `FLUSH_DISK_TIMEOUT`, or what the wait for the slave made of it. -/
theorem sync_flush_durable {cfg : SyncConfig} (hsync : cfg.flushDiskType = .SYNC_FLUSH)
    {log : Log} (hlog : Settled log.mapedFileQueue) {actions : List Action} {s : State}
    (hok : Meets (step cfg) Allowed (started log) actions)
    (hrun : run (step cfg) (started log) actions = some s)
    {c : ℕ} {call : Call} {result : AppendMessageResult} {status : PutMessageStatus}
    (hc : s.calls c = some call) (hpc : call.pc = .returned result status)
    (hwait : call.message.isWaitStoreMsgOK) :
    (status = .PUT_OK → nextOffset result ≤ s.mapedFileQueue.committedWhere ∧
      ∀ o : ℕ, s.mapedFileQueue.getMinOffset ≤ o → o < nextOffset result →
        ∃ f ∈ s.mapedFileQueue.mapedFiles,
          f.fileFromOffset ≤ o ∧ o < f.fileFromOffset + f.forced) ∧
    ((status = .PUT_OK ∨ status = .FLUSH_DISK_TIMEOUT) ∨
      cfg.brokerRole = .SYNC_MASTER ∧
        (status = .FLUSH_SLAVE_TIMEOUT ∨ status = .SLAVE_NOT_AVAILABLE)) := by
  have hstep : ∀ s a s', (Inv s ∧ Answers cfg s) → Allowed s a → step cfg s a = some s' →
      Inv s' ∧ Answers cfg s' :=
    fun s a s' h hok hs => ⟨step_inv hsync h.1 hok hs, step_answers h.2 hs⟩
  have hnone : Answers cfg (started log) := fun c call hc => by simp [started] at hc
  obtain ⟨hinv, hanswers⟩ := run_invariant hstep ⟨inv_started hlog, hnone⟩ hok hrun
  have hdisk := hinv.calls c call hc
  have hanswer := hanswers c call hc
  simp only [Disk, hpc] at hdisk
  rw [hpc] at hanswer
  refine ⟨fun hput => ?_, hanswer⟩
  have hle := hdisk hput hwait
  exact ⟨hle, fun o hmin hlt => hinv.flush.forced hmin (hlt.trans_le hle)⟩

/-! ### A backlog of three files -/

/-- A message fills a file of 100 bytes. -/
def tightConfig : SyncConfig where
  maxMessageSize := 92
  maxMessageSize_lt := by decide
  flushDiskType := .SYNC_FLUSH
  brokerRole := .ASYNC_MASTER
  scheduleMessageService := config.scheduleMessageService
  haSlaveFallbehindMax := 1024

def tightLog : Log := ⟨Chain.empty 100 (Nat.succ_pos 99), ⟨fun _ => none, 0⟩⟩

def waiting : MessageExtBrokerInner :=
  { messageTo ['T'] with body := none, propertiesString := none }

def notWaiting : MessageExtBrokerInner :=
  { waiting with properties := Props.empty.put PROPERTY_WAIT_STORE_MSG_OK "false".toList }

/-- A call that finds room in the last file. -/
def putFirst (c : ℕ) (m : MessageExtBrokerInner) : List Action :=
  [.call c zeroEnv m, .lock c, .getLastMapedFile c, .appendMessage c, .flush c]

/-- A call that goes to a new file. -/
def putNext (c : ℕ) (m : MessageExtBrokerInner) : List Action :=
  [.call c zeroEnv m, .lock c, .getLastMapedFile c, .appendMessage c, .getLastMapedFile c,
    .appendMessage c, .flush c]

/-- The answer of a call that waited, and the end of its message. -/
def outcome (s : State) (c : ℕ) : Option (PutMessageStatus × ℕ) :=
  match s.calls c with
  | some ⟨_, m, .returned result status, _⟩ =>
    if m.isWaitStoreMsgOK then some (status, nextOffset result) else none
  | _ => none

lemma returned_of_outcome {s : State} {c n : ℕ} {status : PutMessageStatus}
    (h : outcome s c = some (status, n)) :
    ∃ call result, s.calls c = some call ∧ call.pc = .returned result status ∧
      call.message.isWaitStoreMsgOK ∧ nextOffset result = n := by
  unfold outcome at h
  split at h
  · next env m result status' request hc =>
    split at h
    · next hwait =>
      simp only [Option.some.injEq, Prod.mk.injEq] at h
      exact ⟨_, result, hc, by rw [h.1], hwait, h.2⟩
    · exact absurd h (by simp)
  · exact absurd h (by simp)

/-- Two messages that nobody waits for, then one in the third file. -/
def backlog : List Action :=
  putFirst 0 notWaiting ++ putNext 1 notWaiting ++ putNext 2 waiting ++
    List.replicate 7 Action.groupCommit ++ [Action.wake 2, Action.slave 2]

lemma settled_tightLog : Settled tightLog.mapedFileQueue :=
  ⟨.nil, le_rfl, by simp [tightLog, Chain.empty]⟩

/-- The two commits of `doCommit` end in the second file, and the caller gets `PUT_OK`. -/
theorem sync_flush_durable_backlog :
    tightConfig.flushDiskType = .SYNC_FLUSH ∧ Settled tightLog.mapedFileQueue ∧
    ∃ s call result, run (step tightConfig) (started tightLog) backlog = some s ∧
      s.calls 2 = some call ∧ call.pc = .returned result .PUT_OK ∧
      call.message.isWaitStoreMsgOK ∧ nextOffset result = 292 ∧
      s.mapedFileQueue.committedWhere = 200 := by
  have hout : (run (step tightConfig) (started tightLog) backlog).bind (fun s =>
      (outcome s 2).map fun o => (o, s.mapedFileQueue.committedWhere)) =
      some ((.PUT_OK, 292), 200) := by decide +kernel
  obtain ⟨s, hrun, hs⟩ := Option.bind_eq_some_iff.mp hout
  obtain ⟨o, hs, ho⟩ := Option.map_eq_some_iff.mp hs
  rw [Prod.mk.injEq] at ho
  rw [ho.1] at hs
  obtain ⟨call, result, h1, h2, h3, h4⟩ := returned_of_outcome hs
  exact ⟨rfl, settled_tightLog, s, call, result, hrun, h1, h2, h3, h4, ho.2⟩

/-- One message, which the service takes up at once. -/
def single : List Action :=
  putFirst 0 waiting ++ List.replicate 6 Action.groupCommit ++ [Action.wake 0, Action.slave 0]

theorem sync_flush_durable_single :
    ∃ s call result, run (step tightConfig) (started tightLog) single = some s ∧
      s.calls 0 = some call ∧ call.pc = .returned result .PUT_OK ∧ nextOffset result = 92 ∧
      nextOffset result ≤ s.mapedFileQueue.committedWhere := by
  have hok : Meets (step tightConfig) Allowed (started tightLog) single := by
    refine @meets_of_checks _ _ _ _ (fun s a => decide (Allowed s a))
      (fun s a h => of_decide_eq_true h) _ _ ?_
    decide
  have hout : (run (step tightConfig) (started tightLog) single).bind (outcome · 0) =
      some (.PUT_OK, 92) := by decide
  obtain ⟨s, hrun, hs⟩ := Option.bind_eq_some_iff.mp hout
  obtain ⟨call, result, h1, h2, h3, h4⟩ := returned_of_outcome hs
  have hdurable := sync_flush_durable rfl settled_tightLog hok hrun h1 h2 h3
  exact ⟨s, call, result, hrun, h1, h2, h4, (hdurable.1 rfl).1⟩

end CloudMQ.SyncFlush
