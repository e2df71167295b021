import CloudMQ.MasterStore

/-!
The row of a prepared message.

A prepared message takes its queue offset from a counter when it is written; its row is appended
later, when it is dispatched, and only if it names its producer group. The row stands at that
offset as long as the counter and the table advance together.
-/

namespace CloudMQ.Alignment

open CloudMQ.Strings CloudMQ.Message CloudMQ.Record CloudMQ.Codec CloudMQ.Segment CloudMQ.Chain
open CloudMQ.CommitLog CloudMQ.Append CloudMQ.Agreement CloudMQ.Recover CloudMQ.Records
open CloudMQ.Units CloudMQ.TransactionState CloudMQ.Dispatch CloudMQ.Puts
open CloudMQ.Runs CloudMQ.MasterStore

/-! ### Requests and rows -/

def IsPrepared (h : Handed) : Prop :=
  getTransactionValue h.request.sysFlag = TransactionPreparedType

instance (h : Handed) : Decidable (IsPrepared h) := inferInstanceAs (Decidable (_ = _))

/-- The row that is appended for a request. -/
def rowOf (h : Handed) : Option Row :=
  if IsPrepared h then
    h.request.producerGroup.map fun group =>
      ⟨h.request.commitLogOffset, h.request.msgSize, (h.request.storeTimestamp / 1000).toInt32,
        hashCode group, TransactionPreparedType⟩
  else none

def rowsOf (hs : List Handed) : List Row := hs.filterMap rowOf

/-- A row as it was appended. -/
def base (row : Row) : Row := { row with state := TransactionPreparedType }

/-- The record carries the number `n` and is the one the row is about. -/
def Carries (n : ℕ) (row : Row) (h : Handed) : Prop :=
  ∃ len f, h.header = some (len, f) ∧ f.queueOffset = Int64.ofNat n ∧
    f.physicOffset = row.clOffset ∧ len = row.size

/-- The prepared messages have rows and are numbered from `n` on. -/
def Numbered : ℕ → List Handed → Prop
  | _, [] => True
  | n, h :: hs =>
    match rowOf h with
    | none => ¬ IsPrepared h ∧ Numbered n hs
    | some row => Carries n row h ∧ Numbered (n + 1) hs

@[simp] lemma rowsOf_nil : rowsOf [] = [] := rfl

lemma rowsOf_append (hs hs' : List Handed) : rowsOf (hs ++ hs') = rowsOf hs ++ rowsOf hs' :=
  List.filterMap_append

lemma Numbered.append {n : ℕ} {hs hs' : List Handed} (h : Numbered n hs)
    (h' : Numbered (n + (rowsOf hs).length) hs') : Numbered n (hs ++ hs') := by
  induction hs generalizing n with
  | nil => simpa using h'
  | cons h₀ hs ih =>
    rw [List.cons_append, Numbered]
    rw [Numbered] at h
    cases hrow : rowOf h₀ with
    | none =>
      rw [hrow] at h
      simp only [rowsOf, List.filterMap_cons, hrow] at h'
      exact ⟨h.1, ih h.2 h'⟩
    | some row =>
      rw [hrow] at h
      simp only [rowsOf, List.filterMap_cons, hrow, List.length_cons] at h'
      refine ⟨h.1, ih h.2 ?_⟩
      rwa [Nat.add_right_comm, Nat.add_assoc]

/-- A numbered message finds its row at its number. -/
lemma Numbered.row {n : ℕ} {hs : List Handed} {h : Handed} (hn : Numbered n hs) (hmem : h ∈ hs)
    (hprep : IsPrepared h) :
    ∃ k row, rowOf h = some row ∧ (rowsOf hs)[k]? = some row ∧ Carries (n + k) row h := by
  induction hs generalizing n with
  | nil => simp at hmem
  | cons h₀ hs ih =>
    rw [Numbered] at hn
    cases hrow : rowOf h₀ with
    | none =>
      rw [hrow] at hn
      rcases List.mem_cons.mp hmem with rfl | hmem
      · exact absurd hprep hn.1
      · obtain ⟨k, row, h1, h2, h3⟩ := ih hn.2 hmem
        exact ⟨k, row, h1, by simpa [rowsOf, hrow] using h2, h3⟩
    | some row₀ =>
      rw [hrow] at hn
      rcases List.mem_cons.mp hmem with rfl | hmem
      · exact ⟨0, row₀, hrow, by simp [rowsOf, hrow], hn.1⟩
      · obtain ⟨k, row, h1, h2, h3⟩ := ih hn.2 hmem
        refine ⟨k + 1, row, h1, by simpa [rowsOf, hrow] using h2, ?_⟩
        rwa [Nat.add_comm k 1, ← Nat.add_assoc]

/-- The row with a number was made for the message that carries it. -/
lemma Numbered.of_row {n k : ℕ} {hs : List Handed} {row : Row} (hn : Numbered n hs)
    (hk : (rowsOf hs)[k]? = some row) :
    ∃ h ∈ hs, IsPrepared h ∧ rowOf h = some row ∧ Carries (n + k) row h := by
  induction hs generalizing n k with
  | nil => simp at hk
  | cons h₀ hs ih =>
    rw [Numbered] at hn
    cases hrow : rowOf h₀ with
    | none =>
      rw [hrow] at hn
      rw [rowsOf, List.filterMap_cons, hrow] at hk
      obtain ⟨h, hmem, hrest⟩ := ih hn.2 hk
      exact ⟨h, List.mem_cons_of_mem _ hmem, hrest⟩
    | some row₀ =>
      rw [hrow] at hn
      rw [rowsOf, List.filterMap_cons, hrow] at hk
      cases k with
      | zero =>
        obtain rfl : row₀ = row := Option.some.inj hk
        refine ⟨h₀, List.mem_cons_self, ?_, hrow, hn.1⟩
        by_contra hprep
        rw [rowOf, if_neg hprep] at hrow
        cases hrow
      | succ k =>
        obtain ⟨h, hmem, hprep, hrow', hcarries⟩ := ih hn.2 hk
        refine ⟨h, List.mem_cons_of_mem _ hmem, hprep, hrow', ?_⟩
        rwa [Nat.add_assoc, Nat.add_comm 1 k] at hcarries

lemma Numbered.left {n : ℕ} {hs hs' : List Handed} (h : Numbered n (hs ++ hs')) :
    Numbered n hs := by
  induction hs generalizing n with
  | nil => trivial
  | cons h₀ hs ih =>
    rw [List.cons_append, Numbered] at h
    rw [Numbered]
    cases hrow : rowOf h₀ with
    | none =>
      rw [hrow] at h
      exact ⟨h.1, ih h.2⟩
    | some row =>
      rw [hrow] at h
      exact ⟨h.1, ih h.2⟩

/-! ### Runs -/

/-- What a step needs. The file number of a table offset must fit an `int`, as `long` arithmetic
must not overflow. -/
def Allowed (cfg : Config) (s : Master) : Action → Prop
  | .put env m => ∀ m' tagsCode, prepare cfg.store env m = some (m', tagsCode) →
      getTransactionValue m'.sysFlag = TransactionPreparedType →
        (m'.getProperty PROPERTY_PRODUCER_GROUP).isSome ∧
        recordSize m' + END_FILE_MIN_BLANK_LENGTH ≤
          s.store.commitLog.mapedFileQueue.mapedFileSize ∧
        s.store.commitLog.mapedFileQueue.getMaxOffset +
          s.store.commitLog.mapedFileQueue.mapedFileSize < 2 ^ 63 ∧
        s.store.commitLog.counters.tranStateTableOffset.toInt + 1 < 2 ^ 63
  | .dispatch env => ∀ h ∈ s.requests.head?,
      (IsPrepared h → env.tranStateFile ∧ HasRoom TSStoreUnitSize s.tranStateTable) ∧
      (¬ IsPrepared h → |h.request.tranStateTableOffset.toInt * TSStoreUnitSize| <
        2 ^ 31 * s.tranStateTable.mapedFileSize)
  | .restart _ _ => HasRoom TSStoreUnitSize s.tranStateTable

/-- `Allowed`, decided. -/
def allows (cfg : Config) (s : Master) : Action → Bool
  | .put env m => (prepare cfg.store env m).all fun p =>
      decide (getTransactionValue p.1.sysFlag = TransactionPreparedType →
        (p.1.getProperty PROPERTY_PRODUCER_GROUP).isSome ∧
        recordSize p.1 + END_FILE_MIN_BLANK_LENGTH ≤
          s.store.commitLog.mapedFileQueue.mapedFileSize ∧
        s.store.commitLog.mapedFileQueue.getMaxOffset +
          s.store.commitLog.mapedFileQueue.mapedFileSize < 2 ^ 63 ∧
        s.store.commitLog.counters.tranStateTableOffset.toInt + 1 < 2 ^ 63)
  | .dispatch env => s.requests.head?.all fun h =>
      decide ((IsPrepared h → env.tranStateFile ∧ HasRoom TSStoreUnitSize s.tranStateTable) ∧
        (¬ IsPrepared h → |h.request.tranStateTableOffset.toInt * TSStoreUnitSize| <
          2 ^ 31 * s.tranStateTable.mapedFileSize))
  | .restart _ _ => decide (HasRoom TSStoreUnitSize s.tranStateTable)

lemma allowed_of_allows {cfg : Config} {s : Master} {a : Action} (h : allows cfg s a) :
    Allowed cfg s a := by
  cases a with
  | put env m =>
    intro m' tagsCode hprep
    rw [allows, hprep, Option.all_some] at h
    exact of_decide_eq_true h
  | dispatch env =>
    intro h₀ hh₀
    rw [allows, Option.mem_def.mp hh₀, Option.all_some] at h
    exact of_decide_eq_true h
  | restart checkCRCOnRecover order =>
    rw [allows, decide_eq_true_eq] at h
    exact h

/-- Writing the state of a row leaves the other rows alone. -/
def UpdatesOnly (q : Table) (k clOffset : Int64) (groupHashCode : Int32) (row : Row) : Prop :=
  ∀ state, state = TransactionCommitType ∨ state = TransactionRollbackType → ∀ k',
    findTransactionBuffer k' (updateTransactionState k clOffset groupHashCode state q).1 =
      if k' = k ∧ row.state = TransactionPreparedType then some { row with state }
      else findTransactionBuffer k' q

/-- Every prepared message that was dispatched has its row at its queue offset. -/
def Aligned (s : Master) : Prop :=
  ∀ h ∈ s.dispatched, IsPrepared h → ∀ len f, h.header = some (len, f) →
    ∃ group row, h.request.producerGroup = some group ∧
      findTransactionBuffer f.queueOffset s.tranStateTable = some row ∧
      row.clOffset = f.physicOffset ∧ row.size = len ∧ row.groupHashCode = hashCode group ∧
      UpdatesOnly s.tranStateTable f.queueOffset f.physicOffset (hashCode group) row

structure Inv (s : Master) : Prop where
  ok : LogOK s.store.commitLog
  held : ∃ rows, Held rows s.tranStateTable ∧ rows.map base = rowsOf s.dispatched
  numbered : Numbered 0 (s.dispatched ++ s.requests)
  counter : s.store.commitLog.counters.tranStateTableOffset =
    Int64.ofNat (rowsOf (s.dispatched ++ s.requests)).length
  count : (rowsOf (s.dispatched ++ s.requests)).length < 2 ^ 63
  valid : ∀ h ∈ s.requests, ∀ row, rowOf h = some row →
    0 ≤ row.clOffset.toInt ∧ 0 < row.size.toInt

section Steps

variable {cfg : Config} {s s' : Master}

lemma base_of_rowOf {h : Handed} {row : Row} (hrow : rowOf h = some row) : base row = row := by
  unfold rowOf at hrow
  split at hrow
  · obtain ⟨group, -, rfl⟩ := Option.map_eq_some_iff.mp hrow
    rfl
  · exact absurd hrow (by simp)

lemma toInt_ofNat {n : ℕ} (hn : n < 2 ^ 63) : (Int64.ofNat n).toInt = n :=
  Int64.toInt_ofNat_of_lt hn

/-- A request that makes no row leaves the rows as they were appended. -/
lemma dispatchTransaction_no_row (env : DispatchEnv) {h : Handed} {rows : List Row} {q : Table}
    (hheld : Held rows q) (hprep : ¬ IsPrepared h) :
    ∃ rows', Held rows' (dispatchTransaction env h.request q) ∧
      rows'.map base = rows.map base := by
  unfold dispatchTransaction
  split
  · exact ⟨rows, hheld, rfl⟩
  · next group hgroup =>
    simp only
    unfold IsPrepared at hprep
    rw [if_neg hprep]
    split_ifs with htype
    · obtain ⟨rows', h1, -, h2⟩ := hheld.update htype
      refine ⟨rows', h1, ?_⟩
      rcases h2 with rfl | ⟨row, -, -, -, -, rfl⟩
      · rfl
      · refine List.ext_getElem? fun i => ?_
        simp only [List.getElem?_map, List.getElem?_modify, Option.map_eq_map, Option.map_map]
        refine Option.map_congr fun r _ => ?_
        simp only [Function.comp]
        split
        · rfl
        · rfl
    · exact ⟨rows, hheld, rfl⟩

/-- A request of a prepared message appends its row. -/
lemma dispatchTransaction_row {env : DispatchEnv} {h : Handed} {rows : List Row} {row : Row}
    {q : Table} (hheld : Held rows q) (hrow : rowOf h = some row) (hfile : env.tranStateFile)
    (hroom : HasRoom TSStoreUnitSize q) (hcl : 0 ≤ row.clOffset.toInt)
    (hsize : 0 < row.size.toInt) :
    Held (rows ++ [row]) (dispatchTransaction env h.request q) := by
  unfold rowOf at hrow
  split at hrow
  · next hprep =>
    obtain ⟨group, hgroup, rfl⟩ := Option.map_eq_some_iff.mp hrow
    unfold dispatchTransaction
    rw [hgroup]
    simp only
    unfold IsPrepared at hprep
    rw [if_pos hprep, hfile]
    exact (hheld.append hroom hcl hsize).1
  · exact absurd hrow (by simp)

/-- The row a written message will get, and its number. -/
lemma numbered_wrote {m : MessageExtBrokerInner} (tagsCode : Int64) {log log' : Log}
    {result : AppendMessageResult} {n : ℕ} (hw : WroteMessage m log log' result)
    (hcounter : log.counters.tranStateTableOffset = Int64.ofNat n)
    (hgroup : getTransactionValue m.sysFlag = TransactionPreparedType →
      (m.getProperty PROPERTY_PRODUCER_GROUP).isSome) :
    Numbered n [⟨dispatchRequest m tagsCode result,
      headerAt log'.mapedFileQueue result.wroteOffset⟩] := by
  rw [headerAt_wrote hw]
  by_cases hprep : getTransactionValue m.sysFlag = TransactionPreparedType
  · obtain ⟨group, hg⟩ := Option.isSome_iff_exists.mp (hgroup hprep)
    have hoff : result.logicsOffset = Int64.ofNat n := by
      rw [hw.logicsOffset, recordQueueOffset, if_pos hprep]
      exact hcounter
    simp only [Numbered, rowOf, IsPrepared, dispatchRequest, hprep, if_true, hg, Option.map_some]
    exact ⟨⟨_, _, rfl, hoff, rfl, by rw [hw.wroteBytes]⟩, trivial⟩
  · simp only [Numbered, rowOf, IsPrepared, dispatchRequest, hprep, if_false, not_false_iff,
      and_self]

lemma tranStateTableOffset_advance {m : MessageExtBrokerInner} {c : Counters} :
    ((c.touch m).advance m).tranStateTableOffset =
      if getTransactionValue m.sysFlag = TransactionPreparedType then c.tranStateTableOffset + 1
      else c.tranStateTableOffset := by
  unfold Counters.advance
  simp only
  split_ifs
  · rfl
  · rfl
  · rfl

lemma tranStateTableOffset_idle {m : MessageExtBrokerInner} {c c' : Counters} (h : Idle m c c') :
    c'.tranStateTableOffset = c.tranStateTableOffset := by
  rcases h with rfl | rfl
  · rfl
  · rfl

/-- One more request at the end. -/
lemma Inv.handed {store : Store} {h : Handed} (hinv : Inv s) (hok : LogOK store.commitLog)
    (hnum : Numbered (rowsOf (s.dispatched ++ s.requests)).length [h])
    (hcounter : store.commitLog.counters.tranStateTableOffset =
      Int64.ofNat (rowsOf (s.dispatched ++ (s.requests ++ [h]))).length)
    (hcount : (rowsOf (s.dispatched ++ (s.requests ++ [h]))).length < 2 ^ 63)
    (hvalid : ∀ row, rowOf h = some row → 0 ≤ row.clOffset.toInt ∧ 0 < row.size.toInt) :
    Inv { s with store := store, requests := s.requests ++ [h] } where
  ok := hok
  held := hinv.held
  numbered := by
    rw [← List.append_assoc]
    exact hinv.numbered.append (by rwa [Nat.zero_add])
  counter := hcounter
  count := hcount
  valid := by
    intro h' hh'
    rcases List.mem_append.mp hh' with hh' | hh'
    · exact hinv.valid h' hh'
    · rw [List.mem_singleton.mp hh']
      exact hvalid

lemma Inv.handed_no_row {store : Store} {h : Handed} (hinv : Inv s) (hok : LogOK store.commitLog)
    (hprep : ¬ IsPrepared h)
    (hcounter : store.commitLog.counters.tranStateTableOffset =
      s.store.commitLog.counters.tranStateTableOffset) :
    Inv { s with store := store, requests := s.requests ++ [h] } := by
  have hrow : rowOf h = none := if_neg hprep
  refine hinv.handed hok ?_ ?_ ?_ ?_
  · rw [Numbered, hrow]
    exact ⟨hprep, trivial⟩
  · rw [hcounter, hinv.counter]
    simp [rowsOf, hrow]
  · simpa [rowsOf, hrow] using hinv.count
  · intro row hr
    rw [hrow] at hr
    exact absurd hr (by simp)

/-- **A message is put.** -/
lemma inv_put {env : Env} {m : MessageExtBrokerInner} (hinv : Inv s)
    (hallow : Allowed cfg s (.put env m)) (hs : MasterStore.step cfg s (.put env m) = some s') :
    Inv s' := by
  rcases hput : s.store.putMessage cfg.store env m with ⟨store, r⟩
  rw [MasterStore.step, hput, Option.some.injEq] at hs
  subst hs
  obtain ⟨hkept, hout, -⟩ := storePut_outcome hinv.ok hput
  cases hout with
  | failed m' idle dispatched =>
    have hnone : MasterStore.handed store.commitLog.mapedFileQueue r = [] := by
      cases r with
      | error e => rfl
      | ok put => simp only [MasterStore.handed, dispatched put rfl]
    simp only [hnone, List.append_nil]
    exact ⟨hkept.ok, hinv.held, hinv.numbered, (tranStateTableOffset_idle idle).trans hinv.counter,
      hinv.count, hinv.valid⟩
  | blank m' tagsCode result put prepared returned appended dispatched room idle =>
    -- such a message is not a prepared one
    have hprep : ¬ getTransactionValue m'.sysFlag = TransactionPreparedType := fun hp =>
      absurd (hallow m' tagsCode prepared hp).2.1 (Nat.not_le.mpr room)
    simp only [returned, MasterStore.handed, dispatched, appended]
    exact hinv.handed_no_row hkept.ok hprep (tranStateTableOffset_idle idle)
  | wrote m' tagsCode result put prepared returned appended dispatched room wrote =>
    have hnum := numbered_wrote tagsCode wrote hinv.counter
      fun hp => (hallow m' tagsCode prepared hp).1
    have hadv := tranStateTableOffset_advance (m := stamp env m') (c := s.store.commitLog.counters)
    rw [← wrote.counters] at hadv
    change _ = if getTransactionValue m'.sysFlag = TransactionPreparedType then _ else _ at hadv
    simp only [returned, MasterStore.handed, dispatched, appended]
    by_cases hp : getTransactionValue m'.sysFlag = TransactionPreparedType
    · obtain ⟨hgroup, -, hlog, hmax⟩ := hallow m' tagsCode prepared hp
      obtain ⟨group, hg⟩ := Option.isSome_iff_exists.mp hgroup
      rw [hinv.counter, toInt_ofNat hinv.count] at hmax
      have hoff := wrote.offset_le
      have hbytes := wrote.wroteBytes
      have hlt := wrote.size_lt
      have hpos : 0 < recordSize (stamp env m') := by unfold recordSize; omega
      have hrow : ∀ header, rowOf ⟨dispatchRequest (stamp env m') tagsCode result, header⟩ =
          some ⟨Int64.ofNat result.wroteOffset, Int32.ofNat result.wroteBytes,
            ((stamp env m').storeTimestamp / 1000).toInt32, hashCode group,
            TransactionPreparedType⟩ := by
        intro header
        refine (if_pos hp).trans ?_
        simp only [dispatchRequest]
        rw [show (stamp env m').getProperty PROPERTY_PRODUCER_GROUP = some group from hg]
        rfl
      have hlen : ∀ header, (rowsOf (s.dispatched ++ (s.requests ++
          [⟨dispatchRequest (stamp env m') tagsCode result, header⟩]))).length =
          (rowsOf (s.dispatched ++ s.requests)).length + 1 := by
        intro header
        rw [← List.append_assoc, rowsOf_append, List.length_append]
        simp only [rowsOf, List.filterMap_cons, hrow, List.filterMap_nil, List.length_singleton]
      refine hinv.handed hkept.ok hnum ?_ ?_ ?_
      · rw [hadv, if_pos hp, hinv.counter, hlen, Int64.ofNat_add]
        rfl
      · rw [hlen]
        exact_mod_cast hmax
      · intro row hr
        rw [hrow, Option.some.injEq] at hr
        rw [← hr]
        simp only
        rw [toInt_ofNat (by omega), Int32.toInt_ofNat_of_lt (by omega)]
        omega
    · exact hinv.handed_no_row hkept.ok hp (hadv.trans (if_neg hp))

/-- **A request is dispatched.** -/
lemma inv_dispatch {env : DispatchEnv} (hinv : Inv s) (hallow : Allowed cfg s (.dispatch env))
    (hs : MasterStore.step cfg s (.dispatch env) = some s') : Inv s' := by
  rw [MasterStore.step] at hs
  cases hreq : s.requests with
  | nil => simp [hreq] at hs
  | cons h rest =>
    simp only [hreq, Option.some.injEq] at hs
    subst hs
    obtain ⟨hroom, -⟩ := hallow h (by rw [hreq]; rfl)
    obtain ⟨rows, hheld, hrows⟩ := hinv.held
    have hall : s.dispatched ++ [h] ++ rest = s.dispatched ++ s.requests := by rw [hreq]; simp
    refine ⟨hinv.ok, ?_, by simpa only [hall] using hinv.numbered, by
      simpa only [hall] using hinv.counter, by simpa only [hall] using hinv.count,
      fun h' hh' => hinv.valid h' (by rw [hreq]; exact List.mem_cons_of_mem _ hh')⟩
    simp only [rowsOf_append, ← hrows]
    by_cases hprep : IsPrepared h
    · -- a prepared message that waits has a row
      obtain ⟨-, row, hrow, -⟩ := hinv.numbered.row (h := h) (by rw [hreq]; simp) hprep
      obtain ⟨hcl, hsize⟩ := hinv.valid h (by rw [hreq]; simp) row hrow
      obtain ⟨hfile, hroom⟩ := hroom hprep
      refine ⟨_, dispatchTransaction_row hheld hrow hfile hroom hcl hsize, ?_⟩
      simp [rowsOf, hrow, base_of_rowOf hrow]
    · obtain ⟨rows', hheld', hsame⟩ := dispatchTransaction_no_row env hheld hprep
      have hrow : rowOf h = none := if_neg hprep
      exact ⟨rows', hheld', by simp [rowsOf, hrow, hsame]⟩

/-- **A restart.** -/
lemma inv_restart {checkCRCOnRecover : Bool} {order : List (Utf8.Text × Int32)} (hinv : Inv s)
    (hallow : Allowed cfg s (.restart checkCRCOnRecover order))
    (hs : MasterStore.step cfg s (.restart checkCRCOnRecover order) = some s') : Inv s' := by
  rw [MasterStore.step] at hs
  split at hs
  · next hreq =>
    simp only [restart, Option.bind_eq_bind, Option.bind_eq_some_iff, Option.pure_def,
      Option.some.injEq, Prod.exists] at hs
    obtain ⟨q, hq, table, counter, htable, rfl⟩ := hs
    obtain ⟨rows, hheld, hrows⟩ := hinv.held
    obtain ⟨q', counter', hrec, hheld', -, hcounter⟩ := hheld.recover hallow
    rw [hrec, Option.some.injEq, Prod.mk.injEq] at htable
    obtain ⟨rfl, rfl⟩ := htable
    refine ⟨(Restart.logOK_recoverNormally hinv.ok.chained hinv.ok.mapped hq).1,
      ⟨rows, hheld', hrows⟩, hinv.numbered, ?_, hinv.count, hinv.valid⟩
    simp only [hreq, List.append_nil, ← hrows, List.length_map]
    exact hcounter
  · exact absurd hs (by simp)

lemma inv_step {a : Action} (hinv : Inv s) (hallow : Allowed cfg s a)
    (hs : MasterStore.step cfg s a = some s') : Inv s' := by
  cases a with
  | put env m => exact inv_put hinv hallow hs
  | dispatch env => exact inv_dispatch hinv hallow hs
  | restart checkCRCOnRecover order => exact inv_restart hinv hallow hs

end Steps

lemma Inv.aligned {s : Master} (hinv : Inv s) : Aligned s := by
  intro h hmem hprep len f hheader
  obtain ⟨rows, hheld, hrows⟩ := hinv.held
  obtain ⟨k, row, hrow, hk, len', f', hheader', hoff, hphys, hlen⟩ :=
    hinv.numbered.left.row hmem hprep
  rw [hheader, Option.some.injEq, Prod.mk.injEq] at hheader'
  obtain ⟨rfl, rfl⟩ := hheader'
  rw [Nat.zero_add] at hoff
  have hlt : k < 2 ^ 63 := by
    have h1 := (List.getElem?_eq_some_iff.mp hk).1
    have h2 := hinv.count
    rw [rowsOf_append, List.length_append] at h2
    omega
  have hint := toInt_ofNat hlt
  rw [← hrows, List.getElem?_map] at hk
  obtain ⟨row₀, hrow₀, rfl⟩ := Option.map_eq_some_iff.mp hk
  have hnum : rows[f.queueOffset.toInt.toNat]? = some row₀ := by rw [hoff, hint]; exact hrow₀
  have hpos : 0 ≤ f.queueOffset.toInt := by rw [hoff, hint]; omega
  obtain ⟨group, hgroup, hhash⟩ : ∃ group, h.request.producerGroup = some group ∧
      row₀.groupHashCode = hashCode group := by
    rw [rowOf, if_pos hprep] at hrow
    obtain ⟨group, hg, heq⟩ := Option.map_eq_some_iff.mp hrow
    exact ⟨group, hg, (congrArg Row.groupHashCode heq).symm⟩
  have hphys' : row₀.clOffset = f.physicOffset := hphys.symm
  refine ⟨group, row₀, hgroup, (hheld.find hpos).trans hnum, hphys', hlen.symm, hhash,
    fun state hstate k' => ?_⟩
  rw [← hphys', ← hhash]
  exact hheld.find_update hpos hnum hstate k'

lemma inv_newMaster {size tableSize : ℕ} (hsize : 0 < size) (htable : 0 < tableSize)
    (hrow : TSStoreUnitSize ≤ tableSize) : Inv (newMaster hsize htable) where
  ok := ⟨.nil, by simp [Mapped, newMaster, Chain.empty]⟩
  held := ⟨[], held_empty htable hrow, rfl⟩
  numbered := trivial
  counter := rfl
  count := by simp [newMaster]
  valid := by simp [newMaster]

/-- **Alignment of the transaction state table.** As long as every prepared message names its
group and fits a file, and rows can be appended, each prepared message that was dispatched has its
row at its queue offset. -/
theorem rows_aligned {cfg : Config} {size tableSize : ℕ} (hsize : 0 < size)
    (htable : 0 < tableSize) (hrow : TSStoreUnitSize ≤ tableSize) {as : List Action} {s : Master}
    (hok : Meets (MasterStore.step cfg) (Allowed cfg) (newMaster hsize htable) as)
    (hr : run (MasterStore.step cfg) (newMaster hsize htable) as = some s) : Aligned s :=
  (run_invariant (fun _ _ _ => inv_step) (inv_newMaster hsize htable hrow) hok hr).aligned

/-! ### A message without a group -/

lemma pos_2000 : 0 < 2000 := by decide
lemma pos_2400 : 0 < 2400 := by decide

def testConfig : Config := ⟨Agreement.config, ⟨2000, pos_2000⟩⟩

def testMaster : Master := newMaster Chain.pos_1024 pos_2400

def allFiles : DispatchEnv := ⟨fun _ => true, true⟩

/-- A prepared message, with the properties it is sent with. -/
def preparedMessage (properties : Props) : MessageExtBrokerInner :=
  { messageTo "T".toList with properties := properties, sysFlag := 4, propertiesString := none }

def groupProperty : Props := Props.empty.put PROPERTY_PRODUCER_GROUP "g".toList

/-- One message without a group, one with a group. -/
def shiftedRun : List Action :=
  [.put zeroEnv (preparedMessage Props.empty), .put zeroEnv (preparedMessage groupProperty),
    .dispatch allFiles, .dispatch allFiles]

/-- The queue offset of the last dispatched record, and the row there. -/
def lastRow (s : Master) : Option (Bool × Int64 × Option Row) :=
  s.dispatched.getLast?.bind fun h => h.header.map fun p =>
    (decide (IsPrepared h), p.2.queueOffset, findTransactionBuffer p.2.queueOffset s.tranStateTable)

/-- The message with the group has queue offset 1, and the only row is row 0. -/
theorem rows_aligned_without_group :
    ∃ s, run (MasterStore.step testConfig) testMaster shiftedRun = some s ∧ ¬ Aligned s := by
  have hrun : (run (MasterStore.step testConfig) testMaster shiftedRun).bind lastRow =
      some (true, 1, none) := by
    decide +kernel
  obtain ⟨s, hs, hlast⟩ := Option.bind_eq_some_iff.mp hrun
  refine ⟨s, hs, fun haligned => ?_⟩
  obtain ⟨h, hmem, hheader⟩ := Option.bind_eq_some_iff.mp hlast
  obtain ⟨⟨len, f⟩, hf, heq⟩ := Option.map_eq_some_iff.mp hheader
  simp only [Prod.mk.injEq, decide_eq_true_eq] at heq
  obtain ⟨-, row, -, hrow, -⟩ := haligned h (List.mem_of_getLast? hmem) heq.1 len f hf
  rw [heq.2.2] at hrow
  exact absurd hrow (by simp)

/-- Two messages with a group, the second one behind a restart. -/
def alignedRun : List Action :=
  [.put zeroEnv (preparedMessage groupProperty), .dispatch allFiles, .restart false [],
    .put zeroEnv (preparedMessage groupProperty), .dispatch allFiles]

theorem rows_aligned_restarted :
    ∃ s, run (MasterStore.step testConfig) testMaster alignedRun = some s ∧
      (lastRow s).map (fun p => (p.1, p.2.1)) = some (true, 1) ∧ Aligned s := by
  have hrun : (run (MasterStore.step testConfig) testMaster alignedRun).bind
      (fun s => (lastRow s).map fun p => (p.1, p.2.1)) = some (true, 1) := by
    decide +kernel
  obtain ⟨s, hs, hlast⟩ := Option.bind_eq_some_iff.mp hrun
  have hok : checks (MasterStore.step testConfig) (allows testConfig) testMaster alignedRun := by
    decide +kernel
  exact ⟨s, hs, hlast, rows_aligned Chain.pos_1024 pos_2400 (by decide)
    (meets_of_checks (fun _ _ => allowed_of_allows) hok) hs⟩

end CloudMQ.Alignment
