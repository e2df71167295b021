import CloudMQ.Runs

/-!
Segment files made ahead: `AllocateMapedFileService`, as `MapedFileQueue.getLastMapedFile` calls it.

A call requests the next file and the one after it and waits for the first. A request stays in
the table until a call takes it out; the service thread tries each request once. After a failure
every call returns before it has looked at its request, until a later creation succeeds; when
both requests have failed and none is queued, there is no later creation.
-/

namespace CloudMQ.AllocateMapedFile

open CloudMQ.Runs

/-! ### The service -/

/-- A mapped file, by its number; the files of a queue are numbered as they follow each other. -/
structure MapedFile where
  id : ℕ
  path : ℕ
  deriving DecidableEq, Repr

structure AllocateRequest where
  filePath : ℕ
  mapedFile : Option MapedFile
  /-- the latch has been counted down -/
  done : Bool
  deriving DecidableEq, Repr

/-- Where the service thread is in `mmapOperation`. -/
inductive Service
  | idle
  /-- the request was taken from the queue -/
  | taken (r : ℕ)
  /-- the constructor of `MapedFile` runs -/
  | creating (r : ℕ)
  /-- the file is set, `hasException` not yet reset -/
  | created (r : ℕ)
  | countingDown (r : ℕ)
  deriving DecidableEq, Repr

/-- Where the caller is in `putRequestAndReturnMapedFile`. -/
inductive Caller
  | idle
  /-- the requests are put and offered -/
  | entered
  /-- waits for the latch -/
  | waiting (r : ℕ)
  deriving DecidableEq, Repr

/-- Requests go by the order they are made in. `next` is the file that is asked for; what calls
returned is noted with what they had asked for. -/
structure State where
  request : ℕ → AllocateRequest
  nextRequest : ℕ
  requestTable : ℕ → Option ℕ
  requestQueue : List ℕ
  hasException : Bool
  service : Service
  caller : Caller
  next : ℕ
  nextFile : ℕ
  returned : List (ℕ × MapedFile)

def init : State where
  request := fun _ => ⟨0, none, true⟩
  nextRequest := 0
  requestTable := fun _ => none
  requestQueue := []
  hasException := false
  service := .idle
  caller := .idle
  next := 0
  nextFile := 0
  returned := []

/-- `putIfAbsent`, and an `offer` if it was absent. -/
def State.putRequest (s : State) (path : ℕ) : State :=
  match s.requestTable path with
  | some _ => s
  | none =>
    { s with
      request := Function.update s.request s.nextRequest ⟨path, none, false⟩
      nextRequest := s.nextRequest + 1
      requestTable := Function.update s.requestTable path (some s.nextRequest)
      requestQueue := s.requestQueue ++ [s.nextRequest] }

def State.enter (s : State) : State :=
  { (s.putRequest s.next).putRequest (s.next + 1) with caller := .entered }

/-- The request is taken out of the table and its file returned. With a file the queue goes on to
the next one. -/
def State.leave (s : State) (r : ℕ) : State :=
  let s := { s with requestTable := Function.update s.requestTable s.next none, caller := .idle }
  match (s.request r).mapedFile with
  | none => s
  | some f => { s with next := s.next + 1, returned := (s.next, f) :: s.returned }

def State.countDown (s : State) (r : ℕ) : State :=
  { s with
    request := Function.update s.request r { s.request r with done := true }
    service := .idle }

/-- The new file is given to its request. -/
def State.create (s : State) (r : ℕ) : State :=
  { s with
    request := Function.update s.request r
      { s.request r with mapedFile := some ⟨s.nextFile, (s.request r).filePath⟩ }
    nextFile := s.nextFile + 1
    service := .created r }

/-- The path is in the table, and there is no file yet: the service will create one. -/
def State.Live (s : State) (r : ℕ) : Prop :=
  s.requestTable (s.request r).filePath ≠ none ∧ (s.request r).mapedFile = none

instance (s : State) (r : ℕ) : Decidable (s.Live r) :=
  inferInstanceAs (Decidable (_ ∧ _))

inductive Event
  | enter
  /-- `hasException` is read and the request looked up -/
  | look
  | wake
  | timeout
  /-- any request may be the next: all are of one size -/
  | take (r : ℕ)
  | check
  | create
  | fail
  | reset
  | countDown

def stepCaller (s : State) : Event → Option State
  | .enter =>
    match s.caller with
    | .idle => some s.enter
    | _ => none
  | .look =>
    match s.caller with
    | .entered =>
      if s.hasException then some { s with caller := .idle }
      else match s.requestTable s.next with
        | some r => some { s with caller := .waiting r }
        | none => some { s with caller := .idle }
    | _ => none
  | .wake =>
    match s.caller with
    | .waiting r => if (s.request r).done then some (s.leave r) else none
    | _ => none
  | .timeout =>
    match s.caller with
    | .waiting r => some (s.leave r)
    | _ => none
  | _ => none

def stepService (s : State) : Event → Option State
  | .take r =>
    match s.service with
    | .idle =>
      if r ∈ s.requestQueue then
        some { s with requestQueue := s.requestQueue.erase r, service := .taken r }
      else none
    | _ => none
  | .check =>
    match s.service with
    | .taken r => some { s with service := if s.Live r then .creating r else .countingDown r }
    | _ => none
  | .create =>
    match s.service with
    | .creating r => some (s.create r)
    | _ => none
  | .fail =>
    match s.service with
    | .creating r => some { s with hasException := true, service := .countingDown r }
    | _ => none
  | .reset =>
    match s.service with
    | .created r => some { s with hasException := false, service := .countingDown r }
    | _ => none
  | .countDown =>
    match s.service with
    | .countingDown r => some (s.countDown r)
    | _ => none
  | _ => none

def step (s : State) (e : Event) : Option State :=
  match e with
  | .enter | .look | .wake | .timeout => stepCaller s e
  | .take _ | .check | .create | .fail | .reset | .countDown => stepService s e

/-! ### Files that are returned -/

/-- What was returned has the path that was asked for, and no file was returned twice. -/
structure Returns (s : State) : Prop where
  path : ∀ p f, (p, f) ∈ s.returned → f.path = p
  once : (s.returned.map fun e => e.2.id).Nodup

/-- Requests stand in the table under their own path, files have the path of their request, and no
file belongs to two requests or to one in the table once it was returned. -/
structure Owned (s : State) : Prop where
  fresh : ∀ p r, s.requestTable p = some r → r < s.nextRequest
  own : ∀ p r, s.requestTable p = some r → (s.request r).filePath = p
  path : ∀ r f, (s.request r).mapedFile = some f → f.path = (s.request r).filePath
  small : ∀ r f, (s.request r).mapedFile = some f → f.id < s.nextFile
  apart : ∀ r r' f f', (s.request r).mapedFile = some f → (s.request r').mapedFile = some f' →
    f.id = f'.id → r = r'
  waiting : ∀ r, s.caller = .waiting r → s.requestTable s.next = some r
  old : ∀ e ∈ s.returned, e.2.id < s.nextFile
  gone : ∀ p r f, s.requestTable p = some r → (s.request r).mapedFile = some f →
    ∀ e ∈ s.returned, e.2.id ≠ f.id
  returns : Returns s

/-! ### What every step keeps of the files -/

section Files

variable {s s' : State}

lemma putRequest_of_some {p r : ℕ} (h : s.requestTable p = some r) : s.putRequest p = s := by
  rw [State.putRequest, h]

lemma putRequest_of_none {p : ℕ} (h : s.requestTable p = none) :
    s.putRequest p =
      { s with
        request := Function.update s.request s.nextRequest ⟨p, none, false⟩
        nextRequest := s.nextRequest + 1
        requestTable := Function.update s.requestTable p (some s.nextRequest)
        requestQueue := s.requestQueue ++ [s.nextRequest] } := by
  rw [State.putRequest, h]

lemma update_eq_some {table : ℕ → Option ℕ} {p q r : ℕ} {v : Option ℕ}
    (h : Function.update table p v q = some r) : q = p ∧ v = some r ∨ q ≠ p ∧ table q = some r := by
  by_cases hq : q = p
  · subst hq
    rw [Function.update_self] at h
    exact .inl ⟨rfl, h⟩
  · rw [Function.update_of_ne hq] at h
    exact .inr ⟨hq, h⟩

/-- A file of a request after another request was put is its file before. -/
lemma update_mapedFile {request : ℕ → AllocateRequest} {n r p : ℕ} {f : MapedFile}
    (h : (Function.update request n ⟨p, none, false⟩ r).mapedFile = some f) :
    r ≠ n ∧ (request r).mapedFile = some f := by
  by_cases hr : r = n
  · subst hr
    rw [Function.update_self] at h
    cases h
  · rw [Function.update_of_ne hr] at h
    exact ⟨hr, h⟩

lemma Owned.putRequest (h : Owned s) (p : ℕ) : Owned (s.putRequest p) := by
  cases hp : s.requestTable p with
  | some r => rwa [putRequest_of_some hp]
  | none =>
    rw [putRequest_of_none hp]
    refine ⟨fun q r hq => ?_, fun q r hq => ?_, fun r f hf => ?_, fun r f hf => ?_,
      fun r r' f f' hf hf' => ?_, fun r hw => ?_, h.old, fun q r f hq hf => ?_,
      ⟨h.returns.path, h.returns.once⟩⟩
    · obtain ⟨-, hr⟩ | ⟨-, hr⟩ := update_eq_some hq
      · exact Option.some.inj hr ▸ Nat.lt_succ_self _
      · exact Nat.lt_succ_of_lt (h.fresh q r hr)
    · obtain ⟨rfl, hr⟩ | ⟨-, hr⟩ := update_eq_some hq
      · obtain rfl := Option.some.inj hr
        change (Function.update s.request s.nextRequest ⟨q, none, false⟩ s.nextRequest).filePath = q
        rw [Function.update_self]
      · have hne : r ≠ s.nextRequest := (h.fresh q r hr).ne
        rw [← h.own q r hr]
        exact congrArg AllocateRequest.filePath (Function.update_of_ne hne ..)
    · obtain ⟨hne, hf⟩ := update_mapedFile hf
      rw [h.path r f hf]
      exact congrArg AllocateRequest.filePath (Function.update_of_ne hne ..).symm
    · exact h.small r f (update_mapedFile hf).2
    · exact h.apart r r' f f' (update_mapedFile hf).2 (update_mapedFile hf').2
    · have hnext := h.waiting r hw
      have hne : s.next ≠ p := by
        intro heq
        rw [heq, hp] at hnext
        cases hnext
      exact (Function.update_of_ne hne ..).trans hnext
    · obtain ⟨hne, hf⟩ := update_mapedFile hf
      obtain ⟨-, hr⟩ | ⟨-, hr⟩ := update_eq_some hq
      · exact absurd (Option.some.inj hr).symm hne
      · exact h.gone q r f hr hf

lemma Owned.enter (h : Owned s) : Owned s.enter := by
  have h2 := (h.putRequest s.next).putRequest (s.next + 1)
  exact ⟨h2.fresh, h2.own, h2.path, h2.small, h2.apart, (fun _ hw => nomatch hw), h2.old, h2.gone,
    ⟨h2.returns.path, h2.returns.once⟩⟩

lemma Owned.leave {r : ℕ} (h : Owned s) (hw : s.caller = .waiting r) : Owned (s.leave r) := by
  have hr := h.waiting r hw
  have htable : ∀ q r', Function.update s.requestTable s.next none q = some r' →
      q ≠ s.next ∧ s.requestTable q = some r' := by
    intro q r' hq
    obtain ⟨-, hn⟩ | hq := update_eq_some hq
    · cases hn
    · exact hq
  cases hf : (s.request r).mapedFile with
  | none =>
    have hleave : s.leave r =
        { s with requestTable := Function.update s.requestTable s.next none, caller := .idle } := by
      simp only [State.leave, hf]
    rw [hleave]
    exact ⟨fun q r' hq => h.fresh q r' (htable q r' hq).2,
      fun q r' hq => h.own q r' (htable q r' hq).2, h.path, h.small, h.apart,
      (fun _ hc => nomatch hc), h.old, fun q r' f hq => h.gone q r' f (htable q r' hq).2,
      ⟨h.returns.path, h.returns.once⟩⟩
  | some f =>
    have hleave : s.leave r =
        { s with
          requestTable := Function.update s.requestTable s.next none
          caller := .idle
          next := s.next + 1
          returned := (s.next, f) :: s.returned } := by
      simp only [State.leave, hf]
    rw [hleave]
    refine ⟨fun q r' hq => h.fresh q r' (htable q r' hq).2,
      fun q r' hq => h.own q r' (htable q r' hq).2, h.path, h.small, h.apart,
      (fun _ hc => nomatch hc), fun e he => ?_, fun q r' f' hq hf' e he => ?_,
      fun p g hg => ?_, ?_⟩
    · obtain rfl | he := List.mem_cons.mp he
      · exact h.small r f hf
      · exact h.old e he
    · obtain ⟨hne, hq⟩ := htable q r' hq
      obtain rfl | he := List.mem_cons.mp he
      · -- the request that is returned stood under its own path only
        intro heq
        have hrr := h.apart r r' f f' hf hf' heq
        exact hne ((h.own q r' hq).symm.trans (hrr ▸ h.own s.next r hr))
      · exact h.gone q r' f' hq hf' e he
    · obtain heq | hg := List.mem_cons.mp hg
      · cases heq
        exact (h.path r f hf).trans (h.own s.next r hr)
      · exact h.returns.path p g hg
    · refine List.nodup_cons.mpr ⟨fun hmem => ?_, h.returns.once⟩
      obtain ⟨e, he, hid⟩ := List.mem_map.mp hmem
      exact h.gone s.next r f hr hf e he hid

/-- A change of one request that leaves its path and its file. -/
lemma Owned.touch {r : ℕ} {a : AllocateRequest} (h : Owned s)
    (hpath : a.filePath = (s.request r).filePath) (hfile : a.mapedFile = (s.request r).mapedFile)
    (service : Service) :
    Owned { s with request := Function.update s.request r a, service := service } := by
  have hp : ∀ x, (Function.update s.request r a x).filePath = (s.request x).filePath := by
    intro x
    by_cases hx : x = r
    · rw [hx, Function.update_self, hpath]
    · rw [Function.update_of_ne hx]
  have hf : ∀ x, (Function.update s.request r a x).mapedFile = (s.request x).mapedFile := by
    intro x
    by_cases hx : x = r
    · rw [hx, Function.update_self, hfile]
    · rw [Function.update_of_ne hx]
  refine ⟨h.fresh, fun q x hq => (hp x).trans (h.own q x hq), fun x f hx => ?_, fun x f hx => ?_,
    fun x x' f f' hx hx' => ?_, h.waiting, h.old, fun q x f hq hx => ?_,
    ⟨h.returns.path, h.returns.once⟩⟩
  · exact (h.path x f ((hf x).symm.trans hx)).trans (hp x).symm
  · exact h.small x f ((hf x).symm.trans hx)
  · exact h.apart x x' f f' ((hf x).symm.trans hx) ((hf x').symm.trans hx')
  · exact h.gone q x f hq ((hf x).symm.trans hx)

lemma create_self (r : ℕ) : (s.create r).request r =
    { s.request r with mapedFile := some ⟨s.nextFile, (s.request r).filePath⟩ } :=
  Function.update_self ..

lemma create_of_ne {r x : ℕ} (h : x ≠ r) : (s.create r).request x = s.request x :=
  Function.update_of_ne h ..

/-- The new file has a number of its own. -/
lemma Owned.create (h : Owned s) (r : ℕ) : Owned (s.create r) := by
  have hcases : ∀ x f, ((s.create r).request x).mapedFile = some f →
      x = r ∧ f = ⟨s.nextFile, (s.request r).filePath⟩ ∨
      x ≠ r ∧ (s.request x).mapedFile = some f := by
    intro x f hx
    by_cases hr : x = r
    · subst hr
      rw [create_self] at hx
      exact .inl ⟨rfl, (Option.some.inj hx).symm⟩
    · rw [create_of_ne hr] at hx
      exact .inr ⟨hr, hx⟩
  have hp : ∀ x, ((s.create r).request x).filePath = (s.request x).filePath := by
    intro x
    by_cases hx : x = r
    · rw [hx, create_self]
    · rw [create_of_ne hx]
  refine ⟨h.fresh, fun q x hq => (hp x).trans (h.own q x hq), fun x f hx => ?_, fun x f hx => ?_,
    fun x x' f f' hx hx' hid => ?_, h.waiting, fun e he => Nat.lt_succ_of_lt (h.old e he),
    fun q x f hq hx e he => ?_, ⟨h.returns.path, h.returns.once⟩⟩
  · rw [hp]
    obtain ⟨rfl, rfl⟩ | ⟨-, hx⟩ := hcases x f hx
    · rfl
    · exact h.path x f hx
  · obtain ⟨-, rfl⟩ | ⟨-, hx⟩ := hcases x f hx
    · exact Nat.lt_succ_self _
    · exact Nat.lt_succ_of_lt (h.small x f hx)
  · obtain ⟨rfl, rfl⟩ | ⟨-, hx⟩ := hcases x f hx
    · obtain ⟨rfl, -⟩ | ⟨-, hx'⟩ := hcases x' f' hx'
      · rfl
      · exact absurd hid (h.small x' f' hx').ne'
    · obtain ⟨-, rfl⟩ | ⟨-, hx'⟩ := hcases x' f' hx'
      · exact absurd hid (h.small x f hx).ne
      · exact h.apart x x' f f' hx hx' hid
  · obtain ⟨-, rfl⟩ | ⟨-, hx⟩ := hcases x f hx
    · exact (h.old e he).ne
    · exact h.gone q x f hq hx e he

lemma owned_init : Owned init :=
  ⟨(fun _ _ h => nomatch h), (fun _ _ h => nomatch h), (fun _ _ h => nomatch h),
    (fun _ _ h => nomatch h), (fun _ _ _ _ h => nomatch h), (fun _ h => nomatch h),
    (fun _ h => nomatch h), (fun _ _ _ h => nomatch h), (fun _ _ h => nomatch h), List.nodup_nil⟩

lemma owned_stepCaller {e : Event} (h : Owned s) (hs : stepCaller s e = some s') : Owned s' := by
  cases hc : s.caller with
  | idle =>
    cases e with
    | enter =>
      simp only [stepCaller, hc, Option.some.injEq] at hs
      exact hs ▸ h.enter
    | _ => simp [stepCaller, hc] at hs
  | entered =>
    cases e with
    | look =>
      have hidle : Owned { s with caller := .idle } :=
        ⟨h.fresh, h.own, h.path, h.small, h.apart, (fun _ hw => nomatch hw), h.old, h.gone,
          ⟨h.returns.path, h.returns.once⟩⟩
      cases hex : s.hasException with
      | true =>
        simp only [stepCaller, hc, hex, if_true, Option.some.injEq] at hs
        rw [hex] at hidle
        exact hs ▸ hidle
      | false =>
        rw [hex] at hidle
        cases hr : s.requestTable s.next with
        | none =>
          simp only [stepCaller, hc, hex, hr, Bool.false_eq_true, if_false, Option.some.injEq] at hs
          exact hs ▸ hidle
        | some r =>
          simp only [stepCaller, hc, hex, hr, Bool.false_eq_true, if_false, Option.some.injEq] at hs
          subst hs
          refine ⟨h.fresh, h.own, h.path, h.small, h.apart, fun r' hw => ?_, h.old, h.gone,
            ⟨h.returns.path, h.returns.once⟩⟩
          cases hw
          exact hr
    | _ => simp [stepCaller, hc] at hs
  | waiting r =>
    cases e with
    | wake =>
      simp only [stepCaller, hc, Option.ite_none_right_eq_some, Option.some.injEq] at hs
      exact hs.2 ▸ h.leave hc
    | timeout =>
      simp only [stepCaller, hc, Option.some.injEq] at hs
      exact hs ▸ h.leave hc
    | _ => simp [stepCaller, hc] at hs

/-- The steps of the service. -/
lemma stepService_cases {e : Event} (hs : stepService s e = some s') :
    (∃ r, e = .take r ∧ s.service = .idle ∧ r ∈ s.requestQueue ∧
      s' = { s with requestQueue := s.requestQueue.erase r, service := .taken r }) ∨
    (∃ r, e = .check ∧ s.service = .taken r ∧
      s' = { s with service := if s.Live r then .creating r else .countingDown r }) ∨
    (∃ r, e = .create ∧ s.service = .creating r ∧ s' = s.create r) ∨
    (∃ r, e = .fail ∧ s.service = .creating r ∧
      s' = { s with hasException := true, service := .countingDown r }) ∨
    (∃ r, e = .reset ∧ s.service = .created r ∧
      s' = { s with hasException := false, service := .countingDown r }) ∨
    (∃ r, e = .countDown ∧ s.service = .countingDown r ∧ s' = s.countDown r) := by
  cases e with
  | take r =>
    cases hv : s.service with
    | idle =>
      simp only [stepService, hv, Option.ite_none_right_eq_some, Option.some.injEq] at hs
      exact .inl ⟨r, rfl, rfl, hs.1, hs.2.symm⟩
    | _ => simp [stepService, hv] at hs
  | check =>
    cases hv : s.service with
    | taken r =>
      simp only [stepService, hv, Option.some.injEq] at hs
      exact .inr (.inl ⟨r, rfl, rfl, hs.symm⟩)
    | _ => simp [stepService, hv] at hs
  | create =>
    cases hv : s.service with
    | creating r =>
      simp only [stepService, hv, Option.some.injEq] at hs
      exact .inr (.inr (.inl ⟨r, rfl, rfl, hs.symm⟩))
    | _ => simp [stepService, hv] at hs
  | fail =>
    cases hv : s.service with
    | creating r =>
      simp only [stepService, hv, Option.some.injEq] at hs
      exact .inr (.inr (.inr (.inl ⟨r, rfl, rfl, hs.symm⟩)))
    | _ => simp [stepService, hv] at hs
  | reset =>
    cases hv : s.service with
    | created r =>
      simp only [stepService, hv, Option.some.injEq] at hs
      exact .inr (.inr (.inr (.inr (.inl ⟨r, rfl, rfl, hs.symm⟩))))
    | _ => simp [stepService, hv] at hs
  | countDown =>
    cases hv : s.service with
    | countingDown r =>
      simp only [stepService, hv, Option.some.injEq] at hs
      exact .inr (.inr (.inr (.inr (.inr ⟨r, rfl, rfl, hs.symm⟩))))
    | _ => simp [stepService, hv] at hs
  | enter | look | wake | timeout => cases hs

lemma owned_stepService {e : Event} (h : Owned s) (hs : stepService s e = some s') : Owned s' := by
  have hsame : ∀ queue hasException service,
      Owned { s with requestQueue := queue, hasException := hasException, service := service } :=
    fun _ _ _ => ⟨h.fresh, h.own, h.path, h.small, h.apart, h.waiting, h.old, h.gone,
      ⟨h.returns.path, h.returns.once⟩⟩
  obtain ⟨r, -, -, -, rfl⟩ | ⟨r, -, -, rfl⟩ | ⟨r, -, -, rfl⟩ | ⟨r, -, -, rfl⟩ | ⟨r, -, -, rfl⟩ |
    ⟨r, -, -, rfl⟩ := stepService_cases hs
  · exact hsame _ _ _
  · exact hsame _ _ _
  · exact h.create r
  · exact hsame _ _ _
  · exact hsame _ _ _
  · exact h.touch (a := { s.request r with done := true }) rfl rfl .idle

lemma step_eq {e : Event} (hs : step s e = some s') :
    stepCaller s e = some s' ∨ stepService s e = some s' := by
  cases e with
  | enter | look | wake | timeout => exact .inl hs
  | take _ | check | create | fail | reset | countDown => exact .inr hs

lemma owned_step {e : Event} (h : Owned s) (hs : step s e = some s') : Owned s' :=
  (step_eq hs).elim (owned_stepCaller h) (owned_stepService h)

end Files

/-! ### A state without a way out -/

section Doomed

variable {s s' : State}

/-- The current operation will reset `hasException`, unless its creation fails. -/
def State.Pending (s : State) : Prop :=
  match s.service with
  | .taken r => s.Live r
  | .creating _ | .created _ => True
  | .idle | .countingDown _ => False

/-- Both requests of the pair are in the table, and nothing that is queued or under way will create
a file: each call puts no request and returns at `hasException`. -/
structure Doomed (s : State) : Prop where
  caller : ∀ r, s.caller ≠ .waiting r
  exception : s.hasException = true
  next : s.requestTable s.next ≠ none
  nextNext : s.requestTable (s.next + 1) ≠ none
  queue : ∀ r ∈ s.requestQueue, ¬ s.Live r
  service : ¬ s.Pending

/-- A creation does not fail where that would leave no way out: while nobody waits, both requests
of the pair are in the table and no queued one will create a file. -/
def LeavesWayOut (s : State) : Event → Prop
  | .fail => ¬ ((∀ r, s.caller ≠ .waiting r) ∧ s.requestTable s.next ≠ none ∧
      s.requestTable (s.next + 1) ≠ none ∧ ∀ r ∈ s.requestQueue, ¬ s.Live r)
  | _ => True

/-- No file is requested further ahead than the one after the next. -/
def NotAhead (s : State) : Prop := ∀ p, s.next + 1 < p → s.requestTable p = none

lemma NotAhead.putRequest (h : NotAhead s) {p : ℕ} (hp : p ≤ s.next + 1) :
    NotAhead (s.putRequest p) := by
  cases hr : s.requestTable p with
  | some r => rwa [putRequest_of_some hr]
  | none =>
    rw [putRequest_of_none hr]
    intro q hq
    change s.next + 1 < q at hq
    exact (Function.update_of_ne (by omega) ..).trans (h q hq)

lemma putRequest_next (p : ℕ) : (s.putRequest p).next = s.next := by
  cases hr : s.requestTable p with
  | some r => rw [putRequest_of_some hr]
  | none => rw [putRequest_of_none hr]

lemma NotAhead.leave (h : NotAhead s) (r : ℕ) : NotAhead (s.leave r) := by
  have htable : ∀ p, s.next + 1 < p →
      Function.update s.requestTable s.next none p = none := by
    intro p hp
    exact (Function.update_of_ne (by omega) ..).trans (h p hp)
  intro p hp
  cases hf : (s.request r).mapedFile with
  | none =>
    simp only [State.leave, hf] at hp ⊢
    exact htable p hp
  | some f =>
    simp only [State.leave, hf] at hp ⊢
    exact htable p (by omega)

lemma notAhead_step {e : Event} (h : NotAhead s) (hs : step s e = some s') : NotAhead s' := by
  obtain hs | hs := step_eq hs
  · cases hc : s.caller with
    | idle =>
      cases e with
      | enter =>
        simp only [stepCaller, hc, Option.some.injEq] at hs
        subst hs
        have h1 := h.putRequest (p := s.next) (by omega)
        exact h1.putRequest (p := s.next + 1) (by rw [putRequest_next])
      | _ => simp [stepCaller, hc] at hs
    | entered =>
      cases e with
      | look =>
        simp only [stepCaller, hc] at hs
        split_ifs at hs
        · exact Option.some.inj hs ▸ h
        · cases hr : s.requestTable s.next <;> rw [hr] at hs <;> exact Option.some.inj hs ▸ h
      | _ => simp [stepCaller, hc] at hs
    | waiting r =>
      cases e with
      | wake =>
        simp only [stepCaller, hc, Option.ite_none_right_eq_some, Option.some.injEq] at hs
        exact hs.2 ▸ h.leave r
      | timeout =>
        simp only [stepCaller, hc, Option.some.injEq] at hs
        exact hs ▸ h.leave r
      | _ => simp [stepCaller, hc] at hs
  · obtain ⟨r, -, -, -, rfl⟩ | ⟨r, -, -, rfl⟩ | ⟨r, -, -, rfl⟩ | ⟨r, -, -, rfl⟩ |
      ⟨r, -, -, rfl⟩ | ⟨r, -, -, rfl⟩ := stepService_cases hs <;> exact h

/-! ### Putting requests -/

lemma putRequest_table_ne {p q : ℕ} (h : s.requestTable q ≠ none) :
    (s.putRequest p).requestTable q = s.requestTable q := by
  cases hr : s.requestTable p with
  | some r => rw [putRequest_of_some hr]
  | none =>
    rw [putRequest_of_none hr]
    exact Function.update_of_ne (by rintro rfl; exact h hr) ..

/-- A request that will create a file still will, and a new one will. -/
lemma live_putRequest {p r : ℕ} (h : s.Live r) : (s.putRequest p).Live r := by
  cases hp : s.requestTable p with
  | some r' => rwa [putRequest_of_some hp]
  | none =>
    rw [putRequest_of_none hp]
    by_cases hr : r = s.nextRequest
    · subst hr
      simp [State.Live]
    · simp only [State.Live, Function.update_of_ne hr]
      refine ⟨?_, h.2⟩
      by_cases hq : (s.request r).filePath = p
      · rw [hq, Function.update_self]
        simp
      · rw [Function.update_of_ne hq]
        exact h.1

/-- A path that was not in the table has a live request in the queue now. -/
lemma live_of_putRequest {p : ℕ} (h : s.requestTable p = none) :
    s.nextRequest ∈ (s.putRequest p).requestQueue ∧ (s.putRequest p).Live s.nextRequest := by
  rw [putRequest_of_none h]
  refine ⟨List.mem_append_right _ (List.mem_singleton_self _), ?_⟩
  simp [State.Live]

lemma mem_putRequest {p r : ℕ} (h : r ∈ s.requestQueue) : r ∈ (s.putRequest p).requestQueue := by
  cases hp : s.requestTable p with
  | some r' => rwa [putRequest_of_some hp]
  | none =>
    rw [putRequest_of_none hp]
    exact List.mem_append_left _ h

/-- A call puts no request only if both are there; otherwise a live one is queued. -/
lemma enter_cases (s : State) :
    (s.requestTable s.next ≠ none ∧ s.requestTable (s.next + 1) ≠ none ∧
      s.enter = { s with caller := .entered }) ∨
    ∃ r ∈ s.enter.requestQueue, s.enter.Live r := by
  by_cases h1 : s.requestTable s.next = none
  · obtain ⟨hmem, hlive⟩ := live_of_putRequest h1
    exact .inr ⟨s.nextRequest, mem_putRequest hmem, live_putRequest (p := s.next + 1) hlive⟩
  · obtain ⟨r, hr⟩ := Option.ne_none_iff_exists'.mp h1
    have hsame := putRequest_of_some hr
    by_cases h2 : s.requestTable (s.next + 1) = none
    · obtain ⟨hmem, hlive⟩ := live_of_putRequest h2
      refine .inr ⟨s.nextRequest, ?_, ?_⟩
      · rw [State.enter, hsame]
        exact hmem
      · rw [State.enter, hsame]
        exact hlive
    · obtain ⟨r', hr'⟩ := Option.ne_none_iff_exists'.mp h2
      refine .inl ⟨h1, h2, ?_⟩
      rw [State.enter, hsame, putRequest_of_some hr']

/-! ### The only step that leads there -/

lemma not_doomed_stepCaller {e : Event} (h : ¬ Doomed s) (ha : NotAhead s)
    (hs : stepCaller s e = some s') : ¬ Doomed s' := by
  intro hd
  cases hc : s.caller with
  | idle =>
    cases e with
    | enter =>
      simp only [stepCaller, hc, Option.some.injEq] at hs
      subst hs
      obtain ⟨-, -, heq⟩ | ⟨r, hmem, hlive⟩ := enter_cases s
      · rw [heq] at hd
        exact h ⟨(fun r hr => by rw [hc] at hr; cases hr), hd.exception, hd.next, hd.nextNext,
          hd.queue, hd.service⟩
      · exact hd.queue r hmem hlive
    | _ => simp [stepCaller, hc] at hs
  | entered =>
    cases e with
    | look =>
      have hback : Doomed { s with caller := .idle } → False := fun hd =>
        h ⟨(fun r hr => by rw [hc] at hr; cases hr), hd.exception, hd.next, hd.nextNext, hd.queue,
          hd.service⟩
      simp only [stepCaller, hc] at hs
      split_ifs at hs
      · exact hback (Option.some.inj hs ▸ hd)
      · cases hr : s.requestTable s.next with
        | none =>
          rw [hr] at hs
          exact hback (Option.some.inj hs ▸ hd)
        | some r =>
          rw [hr] at hs
          obtain rfl := Option.some.inj hs
          exact hd.caller r rfl
    | _ => simp [stepCaller, hc] at hs
  | waiting r =>
    -- the path that was asked for is taken out, or the next pair begins
    have hleave : Doomed (s.leave r) → False := by
      intro hd
      have hn := hd.next
      have hnn := hd.nextNext
      cases hf : (s.request r).mapedFile with
      | none =>
        simp only [State.leave, hf] at hn
        exact hn (Function.update_self ..)
      | some f =>
        simp only [State.leave, hf] at hnn
        exact hnn ((Function.update_of_ne (by omega) ..).trans (ha _ (by omega)))
    cases e with
    | wake =>
      simp only [stepCaller, hc, Option.ite_none_right_eq_some, Option.some.injEq] at hs
      exact hleave (hs.2 ▸ hd)
    | timeout =>
      simp only [stepCaller, hc, Option.some.injEq] at hs
      exact hleave (hs ▸ hd)
    | _ => simp [stepCaller, hc] at hs

lemma live_countDown {r x : ℕ} : (s.countDown r).Live x ↔ s.Live x := by
  have hreq : ((s.countDown r).request x).filePath = (s.request x).filePath ∧
      ((s.countDown r).request x).mapedFile = (s.request x).mapedFile := by
    by_cases hx : x = r
    · subst hx
      simp [State.countDown]
    · simp [State.countDown, Function.update_of_ne hx]
  rw [State.Live, State.Live, hreq.1, hreq.2]
  rfl

lemma not_doomed_stepService {e : Event} (h : ¬ Doomed s) (hok : LeavesWayOut s e)
    (hs : stepService s e = some s') : ¬ Doomed s' := by
  intro hd
  obtain ⟨r, -, hv, -, rfl⟩ | ⟨r, -, hv, rfl⟩ | ⟨r, -, hv, rfl⟩ | ⟨r, rfl, hv, rfl⟩ |
    ⟨r, -, hv, rfl⟩ | ⟨r, -, hv, rfl⟩ := stepService_cases hs
  · refine h ⟨hd.caller, hd.exception, hd.next, hd.nextNext, fun x hx hlive => ?_, ?_⟩
    · by_cases heq : x = r
      · subst heq
        exact hd.service hlive
      · exact hd.queue x ((List.mem_erase_of_ne heq).mpr hx) hlive
    · simp [State.Pending, hv]
  · by_cases hlive : s.Live r
    · rw [if_pos hlive] at hd
      exact hd.service trivial
    · refine h ⟨hd.caller, hd.exception, hd.next, hd.nextNext, hd.queue, ?_⟩
      simpa only [State.Pending, hv] using hlive
  · exact hd.service trivial
  · exact hok ⟨hd.caller, hd.next, hd.nextNext, hd.queue⟩
  · exact absurd hd.exception Bool.false_ne_true
  · refine h ⟨hd.caller, hd.exception, hd.next, hd.nextNext, fun x hx hlive => ?_, ?_⟩
    · exact hd.queue x hx (live_countDown.mpr hlive)
    · simp [State.Pending, hv]

lemma not_doomed_step {e : Event} (h : ¬ Doomed s) (ha : NotAhead s) (hok : LeavesWayOut s e)
    (hs : step s e = some s') : ¬ Doomed s' :=
  (step_eq hs).elim (not_doomed_stepCaller h ha) (not_doomed_stepService h hok)

end Doomed

/-! ### Calls after the failures -/

section Again

variable {s t : State}

/-- The current operation is finished, and its creation succeeds. -/
def State.finish (s : State) : State :=
  match s.service with
  | .idle => s
  | .taken r =>
    if s.Live r then { s.create r with hasException := false }.countDown r else s.countDown r
  | .creating r => { s.create r with hasException := false }.countDown r
  | .created r => { s with hasException := false }.countDown r
  | .countingDown r => s.countDown r

/-- The requests are served one after the other. -/
def State.serve : List ℕ → State → State
  | [], s => s
  | r :: rest, s => State.serve rest { s with requestQueue := rest, service := .taken r }.finish

/-- The service drains its queue. -/
def State.drain (s : State) : State := State.serve s.requestQueue s.finish

/-- One more call for the pair, and what it returns. The service drains its queue while the call
waits, or after it has returned. -/
def State.again (s : State) : State × Option MapedFile :=
  let s := s.enter
  if s.hasException then ({ s with caller := .idle }.drain, none)
  else match s.requestTable s.next with
    | none => ({ s with caller := .idle }.drain, none)
    | some r =>
      let s := { s with caller := .waiting r }.drain
      (s.leave r, (s.request r).mapedFile)

/-- The state after `n` more calls. -/
def State.repeated (s : State) (n : ℕ) : State := (fun s => s.again.1)^[n] s

/-- What serving requests leaves as it is, and what it only adds to. -/
structure Kept (s t : State) : Prop where
  requestTable : t.requestTable = s.requestTable
  next : t.next = s.next
  caller : t.caller = s.caller
  filePath : ∀ r, (t.request r).filePath = (s.request r).filePath
  mapedFile : ∀ r, (s.request r).mapedFile ≠ none → (t.request r).mapedFile ≠ none
  hasException : s.hasException = false → t.hasException = false

lemma Kept.refl (s : State) : Kept s s := ⟨rfl, rfl, rfl, fun _ => rfl, fun _ h => h, fun h => h⟩

lemma Kept.trans {u : State} (h : Kept s t) (h' : Kept t u) : Kept s u :=
  ⟨h'.requestTable.trans h.requestTable, h'.next.trans h.next, h'.caller.trans h.caller,
    fun r => (h'.filePath r).trans (h.filePath r), fun r hr => h'.mapedFile r (h.mapedFile r hr),
    fun hx => h'.hasException (h.hasException hx)⟩

lemma kept_countDown (r : ℕ) : Kept s (s.countDown r) := by
  refine ⟨rfl, rfl, rfl, fun x => ?_, fun x hx => ?_, fun h => h⟩ <;>
  · by_cases hr : x = r
    · subst hr
      simp_all [State.countDown]
    · simp_all [State.countDown]

lemma kept_create (r : ℕ) : Kept s { s.create r with hasException := false } := by
  refine ⟨rfl, rfl, rfl, fun x => ?_, fun x hx => ?_, fun _ => rfl⟩
  · change ((s.create r).request x).filePath = _
    by_cases hr : x = r
    · rw [hr, create_self]
    · rw [create_of_ne hr]
  · change ((s.create r).request x).mapedFile ≠ none
    by_cases hr : x = r
    · rw [hr, create_self]
      simp
    · rwa [create_of_ne hr]

lemma finish_cases (s : State) :
    s.finish = s ∧ s.service = .idle ∨
    (∃ r, s.finish = s.countDown r ∧ ¬ s.Pending) ∨
    (∃ r, s.Pending ∧ s.finish = { s.create r with hasException := false }.countDown r) ∨
    (∃ r, s.Pending ∧ s.finish = { s with hasException := false }.countDown r) := by
  cases hv : s.service with
  | idle => exact .inl ⟨by rw [State.finish, hv], rfl⟩
  | taken r =>
    by_cases hl : s.Live r
    · exact .inr (.inr (.inl ⟨r, by simpa only [State.Pending, hv] using hl,
        by simp only [State.finish, hv, if_pos hl]⟩))
    · exact .inr (.inl ⟨r, by simp only [State.finish, hv, if_neg hl],
        by simpa only [State.Pending, hv] using hl⟩)
  | creating r =>
    exact .inr (.inr (.inl ⟨r, by simp [State.Pending, hv], by simp only [State.finish, hv]⟩))
  | created r =>
    exact .inr (.inr (.inr ⟨r, by simp [State.Pending, hv], by simp only [State.finish, hv]⟩))
  | countingDown r =>
    exact .inr (.inl ⟨r, by simp only [State.finish, hv], by simp [State.Pending, hv]⟩)

lemma kept_finish (s : State) : Kept s s.finish := by
  obtain ⟨heq, -⟩ | ⟨r, heq, -⟩ | ⟨r, -, heq⟩ | ⟨r, -, heq⟩ := finish_cases s
  · rw [heq]
    exact Kept.refl s
  · rw [heq]
    exact kept_countDown r
  · rw [heq]
    exact (kept_create r).trans (kept_countDown r)
  · rw [heq]
    have h : Kept s { s with hasException := false } :=
      ⟨rfl, rfl, rfl, fun _ => rfl, fun _ h => h, fun _ => rfl⟩
    exact h.trans (kept_countDown r)

lemma finish_service (s : State) : s.finish.service = .idle := by
  obtain ⟨heq, hv⟩ | ⟨r, heq, -⟩ | ⟨r, -, heq⟩ | ⟨r, -, heq⟩ := finish_cases s
  · rw [heq, hv]
  all_goals rw [heq]; rfl

lemma finish_queue (s : State) : s.finish.requestQueue = s.requestQueue := by
  obtain ⟨heq, -⟩ | ⟨r, heq, -⟩ | ⟨r, -, heq⟩ | ⟨r, -, heq⟩ := finish_cases s <;> rw [heq] <;> rfl

lemma finish_pending (h : s.Pending) : s.finish.hasException = false := by
  obtain ⟨-, hv⟩ | ⟨r, -, hn⟩ | ⟨r, -, heq⟩ | ⟨r, -, heq⟩ := finish_cases s
  · simp [State.Pending, hv] at h
  · exact absurd h hn
  all_goals rw [heq]; rfl

/-- A live request stays live, or `hasException` is reset. -/
lemma finish_live {r : ℕ} (h : s.Live r) : s.finish.hasException = false ∨ s.finish.Live r := by
  obtain ⟨heq, -⟩ | ⟨x, heq, -⟩ | ⟨x, -, heq⟩ | ⟨x, -, heq⟩ := finish_cases s
  · rw [heq]
    exact .inr h
  · rw [heq]
    exact .inr (live_countDown.mpr h)
  all_goals rw [heq]; exact .inl rfl

lemma kept_take (r : ℕ) (rest : List ℕ) :
    Kept s { s with requestQueue := rest, service := .taken r } :=
  ⟨rfl, rfl, rfl, fun _ => rfl, fun _ h => h, fun h => h⟩

lemma kept_serve (queue : List ℕ) : Kept s (State.serve queue s) := by
  induction queue generalizing s with
  | nil => exact Kept.refl s
  | cons r rest ih => exact ((kept_take r rest).trans (kept_finish _)).trans ih

/-- A live request in the queue resets `hasException`. -/
lemma serve_live {queue : List ℕ} {r : ℕ} (hmem : r ∈ queue) (h : s.Live r) :
    (State.serve queue s).hasException = false := by
  induction queue generalizing s with
  | nil => exact absurd hmem List.not_mem_nil
  | cons x rest ih =>
    obtain rfl | hmem := List.mem_cons.mp hmem
    · have hp : ({ s with requestQueue := rest, service := .taken r } : State).Pending := h
      exact (kept_serve rest).hasException (finish_pending hp)
    · have hl : { s with requestQueue := rest, service := .taken x }.Live r := h
      obtain hx | hl := finish_live hl
      · exact (kept_serve rest).hasException hx
      · exact ih hmem hl

/-- A request in the queue whose path is in the table has a file in the end. -/
lemma serve_file {queue : List ℕ} {r : ℕ} (hmem : r ∈ queue)
    (h : s.requestTable (s.request r).filePath ≠ none) :
    ((State.serve queue s).request r).mapedFile ≠ none := by
  induction queue generalizing s with
  | nil => exact absurd hmem List.not_mem_nil
  | cons x rest ih =>
    have hkept := (kept_take (s := s) x rest).trans (kept_finish _)
    obtain rfl | hmem := List.mem_cons.mp hmem
    · refine (kept_serve rest).mapedFile r ?_
      cases hf : (s.request r).mapedFile with
      | some f => exact hkept.mapedFile r (by rw [hf]; simp)
      | none =>
        have hl : { s with requestQueue := rest, service := .taken r }.Live r := ⟨h, hf⟩
        simp only [State.finish, if_pos hl]
        simp [State.countDown, State.create]
    · refine ih hmem ?_
      rw [hkept.requestTable, hkept.filePath]
      exact h

lemma kept_drain (s : State) : Kept s s.drain := (kept_finish s).trans (kept_serve _)

lemma drain_idle (s : State) : s.drain.service = .idle ∧ s.drain.requestQueue = [] := by
  have hall : ∀ queue s, s.service = .idle → s.requestQueue = queue →
      (State.serve queue s).service = .idle ∧ (State.serve queue s).requestQueue = [] := by
    intro queue
    induction queue with
    | nil => exact fun s hv hq => ⟨hv, hq⟩
    | cons r rest ih => exact fun s _ _ => ih _ (finish_service _) (finish_queue _)
  exact hall _ _ (finish_service s) (finish_queue s)

lemma drain_live {r : ℕ} (hmem : r ∈ s.requestQueue) (h : s.Live r) :
    s.drain.hasException = false := by
  obtain hx | hl := finish_live h
  · exact (kept_serve _).hasException hx
  · exact serve_live hmem hl

lemma drain_pending (h : s.Pending) : s.drain.hasException = false :=
  (kept_serve _).hasException (finish_pending h)

/-- Nobody calls, nothing is queued or under way, and `hasException` is not set. -/
structure Calm (s : State) : Prop where
  caller : s.caller = .idle
  service : s.service = .idle
  queue : s.requestQueue = []
  exception : s.hasException = false

lemma enter_hasException (s : State) : s.enter.hasException = s.hasException := by
  have hput : ∀ (s : State) p, (s.putRequest p).hasException = s.hasException := by
    intro s p
    cases hr : s.requestTable p with
    | some r => rw [putRequest_of_some hr]
    | none => rw [putRequest_of_none hr]
  rw [State.enter]
  exact (hput _ _).trans (hput _ _)

lemma enter_next (s : State) : s.enter.next = s.next :=
  (putRequest_next _).trans (putRequest_next _)

lemma enter_service (s : State) : s.enter.service = s.service := by
  have hput : ∀ (s : State) p, (s.putRequest p).service = s.service := by
    intro s p
    cases hr : s.requestTable p with
    | some r => rw [putRequest_of_some hr]
    | none => rw [putRequest_of_none hr]
  rw [State.enter]
  exact (hput _ _).trans (hput _ _)

/-- What is under way goes on while a call puts its requests. -/
lemma pending_enter (h : s.Pending) : s.enter.Pending := by
  unfold State.Pending at h ⊢
  rw [enter_service]
  cases hv : s.service with
  | taken r =>
    rw [hv] at h
    exact live_putRequest (live_putRequest h)
  | creating r | created r => trivial
  | idle | countingDown r => rw [hv] at h; exact h.elim

lemma enter_table (s : State) : s.enter.requestTable s.next ≠ none := by
  have hfirst : (s.putRequest s.next).requestTable s.next ≠ none := by
    cases hr : s.requestTable s.next with
    | some r => rw [putRequest_of_some hr, hr]; simp
    | none => rw [putRequest_of_none hr]; simp
  have hsame := putRequest_table_ne (p := s.next + 1) hfirst
  change ((s.putRequest s.next).putRequest (s.next + 1)).requestTable s.next ≠ none
  rw [hsame]
  exact hfirst

/-- The request a call waits for. -/
lemma again_waits (s : State) : ∃ r, s.enter.requestTable s.enter.next = some r ∧
    (s.hasException = false → s.again =
      (({ s.enter with caller := .waiting r }.drain).leave r,
        ({ s.enter with caller := .waiting r }.drain.request r).mapedFile)) := by
  obtain ⟨r, hr⟩ := Option.ne_none_iff_exists'.mp (enter_table s)
  rw [← enter_next s] at hr
  refine ⟨r, hr, fun hx => ?_⟩
  have hex : s.enter.hasException = false := (enter_hasException s).trans hx
  simp only [State.again, hex, hr, Bool.false_eq_true, if_false]

/-- A call that has waited and got nothing has taken its request out. -/
lemma calm_again (hx : s.hasException = false) (hnone : s.again.2 = none) :
    Calm s.again.1 ∧ s.again.1.requestTable s.again.1.next = none := by
  obtain ⟨r, -, hagain⟩ := again_waits s
  rw [hagain hx] at hnone ⊢
  have hkept := kept_drain { s.enter with caller := .waiting r }
  obtain ⟨hv, hq⟩ := drain_idle { s.enter with caller := .waiting r }
  have hex := hkept.hasException ((enter_hasException s).trans hx)
  generalize ({ s.enter with caller := .waiting r } : State).drain = d at hnone hv hq hex ⊢
  dsimp only at hnone
  simp only [State.leave, hnone]
  exact ⟨⟨rfl, hv, hq, hex⟩, Function.update_self ..⟩

/-- A request that is not in the table yet is served while the call waits. -/
lemma again_of_absent (hx : s.hasException = false) (hnone : s.requestTable s.next = none) :
    s.again.2 ≠ none := by
  obtain ⟨r, hr, hagain⟩ := again_waits s
  rw [hagain hx]
  obtain ⟨hmem, hlive⟩ := live_of_putRequest hnone
  -- the request is the one this call has put
  have hself : (s.putRequest s.next).requestTable s.next = some s.nextRequest := by
    rw [putRequest_of_none hnone]
    exact Function.update_self ..
  have hown : r = s.nextRequest := by
    have hsame := putRequest_table_ne (p := s.next + 1) (q := s.next)
      (s := s.putRequest s.next) (by rw [hself]; simp)
    rw [enter_next] at hr
    have heq : s.enter.requestTable s.next = some s.nextRequest := hsame.trans hself
    exact Option.some.inj (hr.symm.trans heq)
  subst hown
  have hmem' : s.nextRequest ∈ s.enter.requestQueue := mem_putRequest hmem
  have hlive' : s.enter.Live s.nextRequest := live_putRequest (p := s.next + 1) hlive
  have hkept := kept_finish { s.enter with caller := .waiting s.nextRequest }
  refine serve_file hmem' ?_
  rw [hkept.requestTable, hkept.filePath]
  exact hlive'.1

/-- A call that returns at `hasException`, where there is a way out, sees it reset. -/
lemma calm_of_exception (hc : s.caller = .idle) (hx : s.hasException = true) (hd : ¬ Doomed s)
    (hq : s.requestQueue = []) : Calm s.again.1 := by
  have hex : s.enter.hasException = true := (enter_hasException s).trans hx
  have hagain : s.again.1 = { s.enter with caller := .idle }.drain := by
    simp only [State.again, hex, if_true]
  have hkept := kept_drain { s.enter with caller := .idle }
  obtain ⟨hv, hqueue⟩ := drain_idle { s.enter with caller := .idle }
  rw [hagain]
  refine ⟨hkept.caller, hv, hqueue, ?_⟩
  obtain ⟨h1, h2, -⟩ | ⟨r, hmem, hlive⟩ := enter_cases s
  · have hpending : s.Pending := by
      by_contra hp
      refine hd ⟨fun r hr => ?_, hx, h1, h2, fun r hr => ?_, hp⟩
      · rw [hc] at hr; cases hr
      · rw [hq] at hr; exact absurd hr List.not_mem_nil
    have hp : ({ s.enter with caller := .idle } : State).Pending := pending_enter hpending
    exact drain_pending hp
  · exact drain_live (s := { s.enter with caller := .idle }) hmem hlive

/-- **A way out.** Where a state is not doomed, one of the next three calls returns a file. -/
theorem again_returns (hc : s.caller = .idle) (hq : s.requestQueue = []) (hd : ¬ Doomed s) :
    ∃ n, ((s.repeated n).again).2 ≠ none := by
  by_contra hall
  push Not at hall
  have h0 : s.again.2 = none := hall 0
  have h1 : s.again.1.again.2 = none := hall 1
  have h2 : s.again.1.again.1.again.2 = none := hall 2
  have hcalm : Calm s.again.1 := by
    cases hx : s.hasException with
    | true => exact calm_of_exception hc hx hd hq
    | false => exact (calm_again hx h0).1
  obtain ⟨hcalm', hnone⟩ := calm_again hcalm.exception h1
  exact again_of_absent hcalm'.exception hnone h2

/-- Nothing changes in a doomed state but what the service still does. -/
lemma doomed_again (hc : s.caller = .idle) (hq : s.requestQueue = []) (hd : Doomed s) :
    s.again.2 = none ∧ s.again.1.caller = .idle ∧ s.again.1.requestQueue = [] ∧
      Doomed s.again.1 := by
  have henter : s.enter = { s with caller := .entered } := by
    obtain ⟨-, -, heq⟩ | ⟨r, hmem, hlive⟩ := enter_cases s
    · exact heq
    · obtain ⟨r₁, h₁⟩ := Option.ne_none_iff_exists'.mp hd.next
      obtain ⟨r₂, h₂⟩ := Option.ne_none_iff_exists'.mp hd.nextNext
      rw [State.enter, putRequest_of_some h₁, putRequest_of_some h₂]
  have hagain : s.again = ({ s with caller := .idle }.drain, none) := by
    simp only [State.again, henter, hd.exception, if_true]
  have hsame : { s with caller := .idle } = s := by rw [← hc]
  rw [hagain, hsame, State.drain, hq]
  obtain ⟨heq, -⟩ | ⟨r, heq, -⟩ | ⟨-, hp, -⟩ | ⟨-, hp, -⟩ := finish_cases s
  · rw [heq]
    exact ⟨rfl, hc, hq, hd⟩
  · rw [heq]
    refine ⟨rfl, hc, hq, ⟨hd.caller, hd.exception, hd.next, hd.nextNext, fun x hx hlive => ?_, ?_⟩⟩
    · exact hd.queue x hx (live_countDown.mp hlive)
    · exact fun h => h
  · exact absurd hp hd.service
  · exact absurd hp hd.service

/-- **No way out.** From a doomed state every call returns `null`. -/
theorem doomed_returns_null (hc : s.caller = .idle) (hq : s.requestQueue = []) (hd : Doomed s)
    (n : ℕ) : ((s.repeated n).again).2 = none := by
  induction n generalizing s with
  | zero => exact (doomed_again hc hq hd).1
  | succ n ih =>
    obtain ⟨-, hc', hq', hd'⟩ := doomed_again hc hq hd
    exact ih hc' hq' hd'

/-! ### Runs -/

/-- What is left of the current operation is a run without a failure. -/
lemma finish_run (s : State) : ∃ es, Event.fail ∉ es ∧ run step s es = some s.finish := by
  cases hv : s.service with
  | idle => exact ⟨[], by simp, by simp [State.finish, hv]⟩
  | taken r =>
    by_cases hl : s.Live r
    · exact ⟨[.check, .create, .reset, .countDown], by simp,
        by simp [run, step, stepService, State.finish, State.create, State.countDown, hv, hl]⟩
    · exact ⟨[.check, .countDown], by simp,
        by simp [run, step, stepService, State.finish, State.countDown, hv, hl]⟩
  | creating r =>
    exact ⟨[.create, .reset, .countDown], by simp,
      by simp [run, step, stepService, State.finish, State.create, State.countDown, hv]⟩
  | created r =>
    exact ⟨[.reset, .countDown], by simp,
      by simp [run, step, stepService, State.finish, State.countDown, hv]⟩
  | countingDown r =>
    exact ⟨[.countDown], by simp, by simp [run, step, stepService, State.finish, hv]⟩

lemma run_concat {u : State} {as bs : List Event} (ha : Event.fail ∉ as ∧ run step s as = some t)
    (hb : Event.fail ∉ bs ∧ run step t bs = some u) :
    Event.fail ∉ as ++ bs ∧ run step s (as ++ bs) = some u :=
  ⟨fun h => (List.mem_append.mp h).elim ha.1 hb.1, run_append.mpr ⟨t, ha.2, hb.2⟩⟩

lemma serve_run (queue : List ℕ) (hv : s.service = .idle) (hq : s.requestQueue = queue) :
    ∃ es, Event.fail ∉ es ∧ run step s es = some (State.serve queue s) := by
  induction queue generalizing s with
  | nil => exact ⟨[], by simp, rfl⟩
  | cons r rest ih =>
    have htake : Event.fail ∉ [Event.take r] ∧
        run step s [.take r] = some { s with requestQueue := rest, service := .taken r } := by
      simp [run, step, stepService, hv, hq]
    obtain ⟨es, hes⟩ := finish_run { s with requestQueue := rest, service := .taken r }
    obtain ⟨es', hes'⟩ := ih (finish_service { s with requestQueue := rest, service := .taken r })
      (finish_queue _)
    exact ⟨_, run_concat htake (run_concat hes hes')⟩

lemma drain_run (s : State) : ∃ es, Event.fail ∉ es ∧ run step s es = some s.drain := by
  obtain ⟨es, hes⟩ := finish_run s
  obtain ⟨es', hes'⟩ := serve_run s.requestQueue (finish_service s) (finish_queue s)
  exact ⟨_, run_concat hes hes'⟩

/-- One more call is a run of the caller and the service in which no creation fails. -/
lemma again_run (hc : s.caller = .idle) :
    ∃ es, Event.fail ∉ es ∧ run step s es = some s.again.1 := by
  have henter : Event.fail ∉ [Event.enter] ∧ run step s [.enter] = some s.enter := by
    simp [run, step, stepCaller, hc]
  obtain ⟨r, hr, hagain⟩ := again_waits s
  cases hx : s.hasException with
  | true =>
    have hex : s.enter.hasException = true := (enter_hasException s).trans hx
    have hlook : Event.fail ∉ [Event.look] ∧
        run step s.enter [.look] = some { s.enter with caller := .idle } := by
      have hcaller : s.enter.caller = .entered := rfl
      simp [run, step, stepCaller, hcaller, hex]
    obtain ⟨es, hes⟩ := drain_run { s.enter with caller := .idle }
    have heq : s.again.1 = { s.enter with caller := .idle }.drain := by
      simp only [State.again, hex, if_true]
    rw [heq]
    exact ⟨_, run_concat henter (run_concat hlook hes)⟩
  | false =>
    have hex : s.enter.hasException = false := (enter_hasException s).trans hx
    have hlook : Event.fail ∉ [Event.look] ∧
        run step s.enter [.look] = some { s.enter with caller := .waiting r } := by
      have hcaller : s.enter.caller = .entered := rfl
      simp [run, step, stepCaller, hcaller, hex, hr]
    obtain ⟨es, hes⟩ := drain_run { s.enter with caller := .waiting r }
    have hkept := (kept_drain { s.enter with caller := .waiting r }).caller
    rw [hagain hx]
    generalize ({ s.enter with caller := .waiting r } : State).drain = d at hes hkept ⊢
    have hleave : ∃ e, e ≠ Event.fail ∧ run step d [e] = some (d.leave r) := by
      cases hdone : (d.request r).done with
      | true => exact ⟨.wake, by simp, by simp [run, step, stepCaller, hkept, hdone]⟩
      | false => exact ⟨.timeout, by simp, by simp [run, step, stepCaller, hkept]⟩
    obtain ⟨e, he, hrun⟩ := hleave
    exact ⟨_, run_concat henter (run_concat hlook (run_concat hes
      ⟨by simpa using he.symm, hrun⟩))⟩

/-- **Files ahead.** Whatever fails, a file that is returned is the one that was asked for, and
none is returned twice. If no creation fails where that leaves no way out, then wherever the
queue is empty some later call returns a file. -/
theorem recovers_from_failures {es : List Event} (hr : run step init es = some t) :
    Returns t ∧ (Meets step LeavesWayOut init es → t.caller = .idle → t.requestQueue = [] →
      ∃ n, ((t.repeated n).again).2 ≠ none) := by
  have howned : Owned t :=
    run_inductive (fun s e s' (h : Owned s) hs => owned_step h hs) owned_init hr
  refine ⟨howned.returns, fun hm hc hq => again_returns hc hq ?_⟩
  have hstep : ∀ s e s', (¬ Doomed s ∧ NotAhead s) → LeavesWayOut s e → step s e = some s' →
      ¬ Doomed s' ∧ NotAhead s' := fun s e s' h hok hs =>
    ⟨not_doomed_step h.1 h.2 hok hs, notAhead_step h.2 hs⟩
  have hstart : ¬ Doomed init ∧ NotAhead init :=
    ⟨fun hd => absurd hd.exception Bool.false_ne_true, fun _ _ => rfl⟩
  exact (run_invariant hstep hstart hm hr).1

/-- The service tries the request, and fails. -/
def failing (r : ℕ) : List Event := [.take r, .check, .fail, .countDown]

def succeeding (r : ℕ) : List Event := [.take r, .check, .create, .reset, .countDown]

/-- The disk is full while two calls ask for the first pair of files: the first call waits for its
file in vain, the second one is back at once. -/
def diskFull : List Event :=
  [.enter, .look] ++ failing 0 ++ [.wake] ++ failing 1 ++ [.enter, .look] ++ failing 2

/-- However often the pair is requested after that, no file is returned. -/
theorem diskFull_stuck : ∃ t, run step init diskFull = some t ∧ t.caller = .idle ∧
    t.requestQueue = [] ∧ ∀ n, ((t.repeated n).again).2 = none := by
  have hend : (run step init diskFull).map (fun t => (t.caller, t.requestQueue, t.hasException,
      t.service, t.requestTable t.next, t.requestTable (t.next + 1))) =
      some (.idle, [], true, .idle, some 2, some 1) := rfl
  obtain ⟨t, ht, hend⟩ := Option.map_eq_some_iff.mp hend
  simp only [Prod.mk.injEq] at hend
  obtain ⟨hc, hq, hx, hv, h1, h2⟩ := hend
  refine ⟨t, ht, hc, hq, doomed_returns_null hc hq ⟨fun r hr => ?_, hx, ?_, ?_, fun r hr => ?_, ?_⟩⟩
  · rw [hc] at hr
    cases hr
  · rw [h1]
    simp
  · rw [h2]
    simp
  · rw [hq] at hr
    cases hr
  · simp [State.Pending, hv]

/-- The second file and the third cannot be made at first. -/
def diskFullOnce : List Event :=
  [.enter, .look] ++ succeeding 0 ++ [.wake] ++ [.enter, .look] ++ failing 1 ++ [.wake] ++ failing 2

def leavesWayOut (s : State) : Event → Bool
  | .fail => match s.caller with
    | .waiting _ => true
    | _ => (s.requestTable s.next).isNone || (s.requestTable (s.next + 1)).isNone ||
      s.requestQueue.any fun r => decide (s.Live r)
  | _ => true

lemma leavesWayOut_of_check (s : State) (e : Event) (h : leavesWayOut s e = true) :
    LeavesWayOut s e := by
  cases e with
  | fail =>
    rintro ⟨hc, hn, hnn, hq⟩
    cases hcaller : s.caller with
    | waiting r => exact hc r hcaller
    | idle | entered =>
      simp only [leavesWayOut, hcaller, Bool.or_eq_true, Option.isNone_iff_eq_none,
        List.any_eq_true, decide_eq_true_eq] at h
      obtain (h | h) | ⟨r, hr, hl⟩ := h
      · exact hn h
      · exact hnn h
      · exact hq r hr hl
  | _ => trivial

theorem diskFullOnce_recovers : ∃ t, run step init diskFullOnce = some t ∧
    t.hasException = true ∧ t.returned.length = 1 ∧ Returns t ∧
    ∃ n, ((t.repeated n).again).2 ≠ none := by
  have hend : (run step init diskFullOnce).map (fun t => (t.caller, t.requestQueue,
      t.hasException, t.returned.length)) = some (.idle, [], true, 1) := by decide
  obtain ⟨t, ht, hend⟩ := Option.map_eq_some_iff.mp hend
  simp only [Prod.mk.injEq] at hend
  obtain ⟨hc, hq, hx, hlen⟩ := hend
  have hchecks : checks step leavesWayOut init diskFullOnce = true := by decide
  obtain ⟨hreturns, hfile⟩ := recovers_from_failures ht
  exact ⟨t, ht, hx, hlen, hreturns,
    hfile (meets_of_checks leavesWayOut_of_check hchecks) hc hq⟩

end Again

end CloudMQ.AllocateMapedFile
