import CloudMQ.IndexService

/-!
No key is lost from the index, as long as a normal shutdown finds no batch waiting and a crash
leaves files, log and checkpoint that fit together.

A message that is not in the index yet is among the requests on their way to the thread, and these
come in the order of the log. Wherever the entries put so far are cut, they hold the keys of all
messages in front of the last one; so a crash that keeps a beginning of them, and replays the log
from a place in front of its end, loses nothing.
-/

namespace CloudMQ.IndexCompleteness

open CloudMQ.Utf8 CloudMQ.Strings CloudMQ.Message CloudMQ.IndexService CloudMQ.Runs

/-! ### What is promised -/

/-- An entry for the key of the message. -/
def PresentIn (us : List IndexUnit) (m : DispatchRequest) (key : Text) : Prop :=
  ∃ u ∈ us, u.keyHash = IndexFile.indexKeyHashMethod (buildKey m.topic key) ∧
    u.phyOffset = m.commitLogOffset

def entries (files : List IndexFile) : List IndexUnit := files.flatMap IndexFile.indexes

/-- No request is on its way, and the thread waits. -/
def Idle (s : IndexStore) : Prop := s.requests = [] ∧ s.requestQueue = [] ∧ s.building = []

/-- Every key of every retained message is in a file. -/
def Complete (s : IndexStore) : Prop :=
  ∀ m ∈ s.log, ∀ key ∈ indexKeys m, ∃ f ∈ s.indexFileList, PresentIn f.indexes m key

/-- The request queue is never full. -/
def NeverFull (s : IndexStore) : Action → Prop
  | .putRequest _ => s.requestQueue.length < requestQueueCapacity
  | _ => True

/-- A state the file was in before, or the file itself. One without entries may have begun at any
offset up to the given one. -/
structure Earlier (begins : ℤ) (f' f : IndexFile) : Prop where
  indexes : f'.indexes <+: f.indexes
  last : ∀ u ∈ f'.indexes.getLast?, f'.endPhyOffset = u.phyOffset
  empty : f'.indexes = [] → f'.endPhyOffset.toInt ≤ begins

/-- Where the last of the files ends, if that is behind the begin of the log. -/
def endOf (minOffset : ℤ) (files : List IndexFile) : ℤ :=
  max minOffset ((files.getLast?.map fun f => f.endPhyOffset.toInt).getD 0)

/-- What is left of the files is a beginning of them; the last one may be as it was earlier. -/
def Survives (minOffset : ℤ) (files files' : List IndexFile) : Prop :=
  files' = [] ∨ ∃ front f rest f', files = front ++ f :: rest ∧ files' = front ++ [f'] ∧
    Earlier (endOf minOffset front) f' f

/-- The files, the log and the place where the replay begins fit together. -/
structure Fits (cfg : Config) (s : IndexStore) (files : List IndexFile) (maxOffset : ℤ)
    (minTimestampIndex : Int64) : Prop where
  survives : Survives s.minOffset s.indexFileList files
  /-- no file ends behind the log -/
  ends : ∀ f ∈ files, f.endPhyOffset.toInt ≤ logEnd s.minOffset (cutLog maxOffset s.log)
  /-- no message with keys lies between the last file and the replay -/
  replays : ∀ m ∈ cutLog maxOffset s.log, indexKeys m ≠ [] →
    m ∈ replayed cfg minTimestampIndex (cutLog maxOffset s.log) ∨
      ∃ f ∈ files.getLast?, m.commitLogOffset < f.endPhyOffset

/-- A normal shutdown leaves no batch, and the names of the files come in the order they were made
in; what a crash leaves fits together; a file that is needed can be created. -/
def Safe (cfg : Config) (s : IndexStore) : Action → Prop
  | .restart loaded => s.requestQueue = [] ∧ loaded = s.indexFileList
  | .crash disk maxOffset minTimestamp =>
    Fits cfg s (retained s.indexMsgTimestamp disk) maxOffset
      (getMinTimestampIndex minTimestamp s.indexMsgTimestamp)
  | .poll created => s.needsFile cfg → created
  | .putKey created => s.needsFile cfg → created
  | _ => True

/-! ### Entries -/

section Entries

variable {us us' : List IndexUnit} {m : DispatchRequest} {key : Text} {files : List IndexFile}

lemma PresentIn.mono (h : PresentIn us m key) (hsub : us ⊆ us') : PresentIn us' m key := by
  obtain ⟨u, hu, h1, h2⟩ := h
  exact ⟨u, hsub hu, h1, h2⟩

@[simp] lemma entries_append (files files' : List IndexFile) :
    entries (files ++ files') = entries files ++ entries files' := List.flatMap_append

@[simp] lemma entries_singleton (f : IndexFile) : entries [f] = f.indexes := by simp [entries]

lemma exists_file (h : PresentIn (entries files) m key) :
    ∃ f ∈ files, PresentIn f.indexes m key := by
  obtain ⟨u, hu, h1, h2⟩ := h
  obtain ⟨f, hf, hu⟩ := List.mem_flatMap.mp hu
  exact ⟨f, hf, u, hu, h1, h2⟩

/-- What putting a key does to a file. -/
lemma putKey_some {cfg : Config} {f f' : IndexFile} {ts : Int64} {o : Int64} {k : Text}
    (h : f.putKey cfg k o ts = some f') :
    ∃ u : IndexUnit, f'.indexes = f.indexes ++ [u] ∧
      u.keyHash = IndexFile.indexKeyHashMethod k ∧ u.phyOffset = o ∧ f'.endPhyOffset = o := by
  unfold IndexFile.putKey at h
  split at h
  · obtain rfl := Option.some.inj h
    exact ⟨_, rfl, rfl, rfl, rfl⟩
  · exact absurd h (by simp)

lemma puts_cons (endPhyOffset : Int64) (m : DispatchRequest) (req : List DispatchRequest) :
    puts endPhyOffset (m :: req) =
      (if m.commitLogOffset < endPhyOffset then [] else (indexKeys m).map fun key => (m, key)) ++
        puts endPhyOffset req := List.flatMap_cons

lemma mem_of_puts {endPhyOffset : Int64} {req : List DispatchRequest}
    {p : DispatchRequest × Text} (h : p ∈ puts endPhyOffset req) :
    p.1 ∈ req ∧ endPhyOffset.toInt ≤ p.1.commitLogOffset.toInt := by
  obtain ⟨m, hm, hp⟩ := List.mem_flatMap.mp h
  split at hp
  · exact absurd hp (by simp)
  · next hle =>
    obtain ⟨key, -, rfl⟩ := List.mem_map.mp hp
    rw [Int64.lt_iff_toInt_lt] at hle
    exact ⟨hm, Int.not_lt.mp hle⟩

lemma mem_puts {endPhyOffset : Int64} {req : List DispatchRequest} (hm : m ∈ req)
    (hkey : key ∈ indexKeys m) :
    (m, key) ∈ puts endPhyOffset req ∨ m.commitLogOffset < endPhyOffset := by
  by_cases hlt : m.commitLogOffset < endPhyOffset
  · exact .inr hlt
  · refine .inl (List.mem_flatMap.mpr ⟨m, hm, ?_⟩)
    rw [if_neg hlt]
    exact List.mem_map_of_mem hkey

end Entries

/-! ### The order of the log -/

section Ordered

def offset (m : DispatchRequest) : ℤ := m.commitLogOffset.toInt

/-- In the order of the log. -/
def Ordered (ms : List DispatchRequest) : Prop := ms.Pairwise fun m m' => offset m ≤ offset m'

/-- The messages that are on their way to the index. -/
def onTheWay (s : IndexStore) : List DispatchRequest :=
  s.building.map Prod.fst ++ (s.requestQueue.flatten ++ s.requests)

lemma Ordered.snoc {ms : List DispatchRequest} (h : Ordered ms) {m : DispatchRequest}
    (hm : ∀ m' ∈ ms, offset m' ≤ offset m) : Ordered (ms ++ [m]) :=
  List.pairwise_append.mpr ⟨h, List.pairwise_singleton _ _, fun a ha b hb => by
    rw [List.mem_singleton.mp hb]
    exact hm a ha⟩

/-- What is put for a batch comes in the order of the batch. -/
lemma ordered_puts (endPhyOffset : Int64) {req ms : List DispatchRequest}
    (h : Ordered (req ++ ms)) : Ordered ((puts endPhyOffset req).map Prod.fst ++ ms) := by
  induction req with
  | nil => exact h
  | cons m req ih =>
    obtain ⟨hhead, htail⟩ := List.pairwise_cons.mp h
    have ih := ih htail
    rw [puts_cons, List.map_append, List.append_assoc]
    refine List.pairwise_append.mpr ⟨?_, ih, fun a ha b hb => ?_⟩
    · split
      · exact List.Pairwise.nil
      · rw [List.map_map]
        exact List.pairwise_map.mpr (List.pairwise_of_forall fun _ _ => le_rfl)
    · have ha' : a = m := by
        split at ha
        · exact absurd ha (by simp)
        · obtain ⟨p, hp, rfl⟩ := List.mem_map.mp ha
          obtain ⟨key, -, rfl⟩ := List.mem_map.mp hp
          rfl
      rw [ha']
      refine hhead b ?_
      rcases List.mem_append.mp hb with hb | hb
      · obtain ⟨p, hp, rfl⟩ := List.mem_map.mp hb
        exact List.mem_append_left _ (mem_of_puts hp).1
      · exact List.mem_append_right _ hb

lemma replayed_sublist (cfg : Config) (t : Int64) (log : List DispatchRequest) :
    (replayed cfg t log).Sublist log := by
  unfold replayed
  split
  · exact List.Sublist.refl _
  · exact List.filter_sublist

lemma recordEnd_le_logEnd {log : List DispatchRequest} {minOffset : ℤ} {m : DispatchRequest}
    (hlog : log.Pairwise fun m m' => recordEnd m ≤ offset m')
    (hpos : ∀ m ∈ log, offset m < recordEnd m) (hm : m ∈ log) :
    recordEnd m ≤ logEnd minOffset log := by
  rcases List.eq_nil_or_concat log with rfl | ⟨front, last, rfl⟩
  · exact absurd hm (by simp)
  · rw [List.concat_eq_append] at *
    have hend : logEnd minOffset (front ++ [last]) = recordEnd last := by simp [logEnd]
    rw [hend]
    rcases List.mem_append.mp hm with hm | hm
    · have h1 := (List.pairwise_append.mp hlog).2.2 m hm last (by simp)
      have h2 := hpos last (by simp)
      omega
    · rw [List.mem_singleton.mp hm]

end Ordered

/-! ### The invariant -/

section Invariant

/-- All messages of the log in front of an offset are in these entries. -/
def Holds (log : List DispatchRequest) (us : List IndexUnit) (o : ℤ) : Prop :=
  ∀ m ∈ log, offset m < o → ∀ key ∈ indexKeys m, PresentIn us m key

structure Inv (s : IndexStore) : Prop where
  min_nonneg : 0 ≤ s.minOffset
  min_le : ∀ m ∈ s.log, s.minOffset ≤ offset m
  min_le_max : s.minOffset ≤ s.maxOffset
  log : s.log.Pairwise fun m m' => recordEnd m ≤ offset m'
  size : ∀ m ∈ s.log, offset m < recordEnd m
  log_le : ∀ m ∈ s.log, recordEnd m ≤ s.maxOffset
  work : Ordered (onTheWay s)
  work_mem : ∀ m ∈ onTheWay s, 0 ≤ offset m ∧ offset m < s.maxOffset
  /-- a key is in the index, or it is on its way -/
  cover : ∀ m ∈ s.log, ∀ key ∈ indexKeys m, PresentIn (entries s.indexFileList) m key ∨
    (m, key) ∈ s.building ∨ m ∈ s.requestQueue.flatten ++ s.requests
  /-- the entries in front of one hold all messages in front of its message -/
  front : ∀ us u us', entries s.indexFileList = us ++ u :: us' → Holds s.log us u.phyOffset.toInt
  /-- a file without entries begins where the files in front of it end -/
  empty : ∀ fs f fs', s.indexFileList = fs ++ f :: fs' → f.indexes = [] →
    Holds s.log (entries fs) f.endPhyOffset.toInt
  last : ∀ f ∈ s.indexFileList, ∀ u ∈ f.indexes.getLast?, f.endPhyOffset = u.phyOffset
  sorted : ∀ f ∈ s.indexFileList,
    f.indexes.Pairwise fun u u' => u.phyOffset.toInt ≤ u'.phyOffset.toInt
  ends : ∀ f ∈ s.indexFileList, f.endPhyOffset.toInt ≤ s.maxOffset
  building : ∀ p ∈ s.building, ∀ f ∈ s.indexFileList.getLast?,
    f.endPhyOffset.toInt ≤ offset p.1

variable {cfg : Config} {s s' : IndexStore}

lemma Holds.mono {log : List DispatchRequest} {us us' : List IndexUnit} {o : ℤ}
    (h : Holds log us o) (hsub : us ⊆ us') : Holds log us' o :=
  fun m hm hlt key hkey => (h m hm hlt key hkey).mono hsub

lemma Holds.sublog {log log' : List DispatchRequest} {us : List IndexUnit} {o : ℤ}
    (h : Holds log us o) (hsub : log' ⊆ log) : Holds log' us o :=
  fun m hm => h m (hsub hm)

/-- No entry of a file lies behind its end. -/
lemma Inv.le_end (h : Inv s) {f : IndexFile} (hf : f ∈ s.indexFileList) {u : IndexUnit}
    (hu : u ∈ f.indexes) : u.phyOffset.toInt ≤ f.endPhyOffset.toInt := by
  rcases List.eq_nil_or_concat f.indexes with hnil | ⟨us, v, hus⟩
  · simp [hnil] at hu
  · rw [List.concat_eq_append] at hus
    have hlast := h.last f hf v (by simp [hus])
    have hsorted := h.sorted f hf
    rw [hus] at hu hsorted
    rw [hlast]
    rcases List.mem_append.mp hu with hu | hu
    · exact (List.pairwise_append.mp hsorted).2.2 u hu v (by simp)
    · rw [List.mem_singleton.mp hu]

/-- What lies in front of the end of a file is in it or in the files in front of it. -/
lemma Inv.holds_end (h : Inv s) {fs fs' : List IndexFile} {f : IndexFile}
    (hsplit : s.indexFileList = fs ++ f :: fs') :
    Holds s.log (entries (fs ++ [f])) f.endPhyOffset.toInt := by
  have hmem : f ∈ s.indexFileList := by rw [hsplit]; simp
  rcases List.eq_nil_or_concat f.indexes with hnil | ⟨us, v, hus⟩
  · exact (h.empty fs f fs' hsplit hnil).mono (by simp)
  · rw [List.concat_eq_append] at hus
    rw [h.last f hmem v (by simp [hus])]
    refine (h.front (entries fs ++ us) v (entries fs') ?_).mono ?_
    · rw [hsplit, entries_append]
      simp [entries, hus]
    · rw [entries_append, entries_singleton, hus]
      exact List.append_subset.mpr ⟨List.subset_append_left _ _,
        List.Subset.trans (List.subset_append_left us [v]) (List.subset_append_right _ _)⟩

lemma getLast?_split {files : List IndexFile} {f : IndexFile} (h : files.getLast? = some f) :
    files = files.dropLast ++ [f] := (List.dropLast_append_getLast? f h).symm

/-- What lies in front of the end of the last file is in the index. -/
lemma Inv.holds_last (h : Inv s) {f : IndexFile} (hf : s.indexFileList.getLast? = some f) :
    Holds s.log (entries s.indexFileList) f.endPhyOffset.toInt := by
  have hsplit := getLast?_split hf
  have : Holds s.log (entries (s.indexFileList.dropLast ++ [f])) f.endPhyOffset.toInt :=
    h.holds_end hsplit
  rwa [← hsplit] at this

lemma Inv.holds_lastEnd (h : Inv s) : Holds s.log (entries s.indexFileList) s.lastEnd.toInt := by
  unfold IndexStore.lastEnd
  cases hf : s.indexFileList.getLast? with
  | none =>
    intro m hm hlt
    have := h.min_le m hm
    have := h.min_nonneg
    change offset m < 0 at hlt
    omega
  | some f => exact h.holds_last hf

end Invariant

/-! ### Steps -/

section Steps

variable {cfg : Config} {s s' : IndexStore}

/-- A message behind the entries changes nothing for them. -/
lemma Holds.put {log : List DispatchRequest} {us : List IndexUnit} {o : ℤ} (h : Holds log us o)
    {m : DispatchRequest} (ho : o ≤ offset m) : Holds (log ++ [m]) us o := by
  intro m' hm' hlt
  rcases List.mem_append.mp hm' with hm' | hm'
  · exact h m' hm' hlt
  · rw [List.mem_singleton.mp hm'] at hlt
    omega

lemma Inv.entry_le (h : Inv s) {u : IndexUnit} (hu : u ∈ entries s.indexFileList) :
    u.phyOffset.toInt ≤ s.maxOffset := by
  obtain ⟨f, hf, hu⟩ := List.mem_flatMap.mp hu
  exact (h.le_end hf hu).trans (h.ends f hf)

lemma Inv.put (h : Inv s) {m : DispatchRequest} (hle : s.maxOffset ≤ offset m)
    (hsize : 0 < m.msgSize.toInt) :
    Inv { s with
      log := s.log ++ [m], maxOffset := recordEnd m, requests := s.requests ++ [m] } := by
  have hend : offset m < recordEnd m := by
    change m.commitLogOffset.toInt < m.commitLogOffset.toInt + m.msgSize.toInt
    omega
  have hmin := h.min_le_max
  have hnonneg := h.min_nonneg
  have hwork : onTheWay { s with
      log := s.log ++ [m], maxOffset := recordEnd m, requests := s.requests ++ [m] } =
      onTheWay s ++ [m] := by
    simp [onTheWay]
  refine ⟨h.min_nonneg, fun m' hm' => ?_, ?_, ?_, fun m' hm' => ?_, fun m' hm' => ?_, ?_, ?_, ?_,
    ?_, ?_, h.last, h.sorted, fun f hf => ?_, h.building⟩
  · rcases List.mem_append.mp hm' with hm' | hm'
    · exact h.min_le m' hm'
    · rw [List.mem_singleton.mp hm']
      exact hmin.trans hle
  · change s.minOffset ≤ recordEnd m
    omega
  · refine List.pairwise_append.mpr ⟨h.log, List.pairwise_singleton _ _, fun a ha b hb => ?_⟩
    rw [List.mem_singleton.mp hb]
    exact (h.log_le a ha).trans hle
  · rcases List.mem_append.mp hm' with hm' | hm'
    · exact h.size m' hm'
    · rw [List.mem_singleton.mp hm']
      exact hend
  · change recordEnd m' ≤ recordEnd m
    rcases List.mem_append.mp hm' with hm' | hm'
    · have := h.log_le m' hm'
      omega
    · rw [List.mem_singleton.mp hm']
  · rw [hwork]
    refine h.work.snoc fun m' hm' => ?_
    have := (h.work_mem m' hm').2
    omega
  · rw [hwork]
    intro m' hm'
    change 0 ≤ offset m' ∧ offset m' < recordEnd m
    rcases List.mem_append.mp hm' with hm' | hm'
    · have := h.work_mem m' hm'
      omega
    · rw [List.mem_singleton.mp hm']
      omega
  · intro m' hm' key hkey
    rcases List.mem_append.mp hm' with hm' | hm'
    · rcases h.cover m' hm' key hkey with h' | h' | h'
      · exact .inl h'
      · exact .inr (.inl h')
      · refine .inr (.inr ?_)
        rw [← List.append_assoc]
        exact List.mem_append_left _ h'
    · rw [List.mem_singleton.mp hm']
      exact .inr (.inr (by simp))
  · intro us u us' hsplit
    refine (h.front us u us' hsplit).put ?_
    exact (h.entry_le (by rw [hsplit]; simp)).trans hle
  · intro fs f fs' hsplit hnil
    refine (h.empty fs f fs' hsplit hnil).put ?_
    exact (h.ends f (by rw [hsplit]; simp)).trans hle
  · have := h.ends f hf
    change f.endPhyOffset.toInt ≤ recordEnd m
    omega

/-- The requests move on. -/
lemma Inv.move (h : Inv s) {requests : List DispatchRequest}
    {requestQueue : List (List DispatchRequest)}
    (hmove : requestQueue.flatten ++ requests = s.requestQueue.flatten ++ s.requests) :
    Inv { s with requests := requests, requestQueue := requestQueue } := by
  have hwork : onTheWay { s with requests := requests, requestQueue := requestQueue } =
      onTheWay s := congrArg (s.building.map Prod.fst ++ ·) hmove
  exact ⟨h.min_nonneg, h.min_le, h.min_le_max, h.log, h.size, h.log_le, by rw [hwork]; exact h.work,
    by rw [hwork]; exact h.work_mem, by rw [hmove]; exact h.cover, h.front, h.empty, h.last,
    h.sorted, h.ends, h.building⟩

lemma toInt_newEnd (e t : Int64) :
    (IndexFile.newFile e t).endPhyOffset.toInt = max 0 e.toInt := by
  change (if 0 < e then e else 0).toInt = _
  split
  · next hlt =>
    rw [Int64.lt_iff_toInt_lt] at hlt
    exact (max_eq_right hlt.le).symm
  · next hle =>
    rw [Int64.lt_iff_toInt_lt] at hle
    exact (max_eq_left (Int.not_lt.mp hle)).symm

/-- What a new file is: empty, and it begins where the last one ends. -/
lemma rollFile_spec (s : IndexStore) :
    ∃ f, s.rollFile.indexFileList = s.indexFileList ++ [f] ∧ f.indexes = [] ∧
      f.endPhyOffset.toInt = max 0 s.lastEnd.toInt ∧
      s.rollFile = { s with indexFileList := s.indexFileList ++ [f]
                            flushing := s.rollFile.flushing } := by
  unfold IndexStore.rollFile IndexStore.lastEnd
  cases hf : s.indexFileList.getLast? with
  | none =>
    have hnil := List.getLast?_eq_none_iff.mp hf
    refine ⟨IndexFile.newFile 0 0, by simp [hnil], rfl, rfl, by simp [hnil]⟩
  | some f =>
    exact ⟨IndexFile.newFile f.endPhyOffset f.endTimestamp, rfl, rfl, toInt_newEnd _ _, rfl⟩

/-- **A new file.** -/
lemma Inv.rollFile (h : Inv s) : Inv s.rollFile := by
  obtain ⟨f, -, hnil, hend, hroll⟩ := rollFile_spec s
  have hentries : entries (s.indexFileList ++ [f]) = entries s.indexFileList := by simp [hnil]
  have hnonneg := h.min_nonneg
  have hmax := h.min_le_max
  have hlast : s.lastEnd.toInt ≤ s.maxOffset := by
    unfold IndexStore.lastEnd
    cases hf : s.indexFileList.getLast? with
    | none => exact hnonneg.trans hmax
    | some g => exact h.ends g (List.mem_of_getLast? hf)
  rw [hroll]
  refine ⟨h.min_nonneg, h.min_le, h.min_le_max, h.log, h.size, h.log_le, h.work, h.work_mem, ?_, ?_,
    ?_, fun g hg => ?_, fun g hg => ?_, fun g hg => ?_, ?_⟩
  · rw [hentries]
    exact h.cover
  · rw [hentries]
    exact h.front
  · intro fs g fs' hsplit hg
    rcases List.eq_nil_or_concat fs' with rfl | ⟨fs'', g', rfl⟩
    · obtain ⟨rfl, hgf⟩ := List.append_inj' hsplit rfl
      obtain rfl := (List.cons.inj hgf).1
      intro m hm hlt
      have := h.min_le m hm
      rw [hend] at hlt
      exact h.holds_lastEnd m hm (by omega)
    · rw [List.concat_eq_append, ← List.cons_append, ← List.append_assoc] at hsplit
      exact h.empty fs g fs'' (List.append_inj' hsplit rfl).1 hg
  · rcases List.mem_append.mp hg with hg | hg
    · exact h.last g hg
    · rw [List.mem_singleton.mp hg, hnil]
      simp
  · rcases List.mem_append.mp hg with hg | hg
    · exact h.sorted g hg
    · rw [List.mem_singleton.mp hg, hnil]
      exact List.Pairwise.nil
  · rcases List.mem_append.mp hg with hg | hg
    · exact h.ends g hg
    · rw [List.mem_singleton.mp hg, hend]
      exact max_le (hnonneg.trans hmax) hlast
  · intro p hp g hg
    rw [List.getLast?_concat, Option.mem_some_iff] at hg
    subst hg
    rw [hend]
    refine max_le (h.work_mem p.1 (List.mem_append_left _ (List.mem_map_of_mem hp))).1 ?_
    unfold IndexStore.lastEnd
    cases hf : s.indexFileList.getLast? with
    | none => exact (h.work_mem p.1 (List.mem_append_left _ (List.mem_map_of_mem hp))).1
    | some g => exact h.building p hp g hf

/-- **A batch is taken.** What is left out of it is in the index. -/
lemma Inv.take (h : Inv s) {req : List DispatchRequest} {reqs : List (List DispatchRequest)}
    (hb : s.building = []) (hq : s.requestQueue = req :: reqs) :
    Inv { s with requestQueue := reqs, building := puts s.lastEnd req } := by
  have hwork := h.work
  have hmem := h.work_mem
  unfold onTheWay at hwork hmem
  rw [hb, hq, List.map_nil, List.nil_append, List.flatten_cons, List.append_assoc] at hwork hmem
  refine ⟨h.min_nonneg, h.min_le, h.min_le_max, h.log, h.size, h.log_le, ordered_puts _ hwork,
    ?_, ?_, h.front, h.empty, h.last, h.sorted, h.ends, ?_⟩
  · intro m hm
    rcases List.mem_append.mp hm with hm | hm
    · obtain ⟨p, hp, rfl⟩ := List.mem_map.mp hm
      exact hmem p.1 (List.mem_append_left _ (mem_of_puts hp).1)
    · exact hmem m (List.mem_append_right _ hm)
  · intro m hm key hkey
    rcases h.cover m hm key hkey with h' | h' | h'
    · exact .inl h'
    · exact absurd h' (by simp [hb])
    · rw [hq, List.flatten_cons, List.append_assoc] at h'
      rcases List.mem_append.mp h' with h' | h'
      · rcases @mem_puts _ _ s.lastEnd _ h' hkey with hput | hlt
        · exact .inr (.inl hput)
        · exact .inl (h.holds_lastEnd m hm (Int64.lt_iff_toInt_lt.mp hlt) key hkey)
      · exact .inr (.inr h')
  · intro p hp f hf
    have := (mem_of_puts hp).2
    simp only [IndexStore.lastEnd, Option.mem_def.mp hf, Option.map_some, Option.getD_some] at this
    exact this

/-- What is still on its way is not in front of what is put next. -/
lemma Inv.le_work (h : Inv s) {p : DispatchRequest × Text} {rest : List (DispatchRequest × Text)}
    (hb : s.building = p :: rest) {m : DispatchRequest} (hm : m ∈ onTheWay s) :
    offset p.1 ≤ offset m := by
  have hwork := h.work
  unfold onTheWay at hwork hm
  rw [hb, List.map_cons, List.cons_append] at hwork hm
  rcases List.mem_cons.mp hm with rfl | hm
  · exact le_rfl
  · exact (List.pairwise_cons.mp hwork).1 m hm

/-- **A key is put.** Everything in front of its message is in the index already. -/
lemma Inv.putKey (h : Inv s) {m : DispatchRequest} {key : Text}
    {rest : List (DispatchRequest × Text)} (hb : s.building = (m, key) :: rest)
    {f f' : IndexFile} (hf : s.indexFileList.getLast? = some f)
    (hput : f.putKey cfg (buildKey m.topic key) m.commitLogOffset m.storeTimestamp = some f') :
    Inv { s with indexFileList := s.indexFileList.dropLast ++ [f'], building := rest } := by
  obtain ⟨u, hidx, hhash, hoff, hend⟩ := putKey_some hput
  have hsplit := getLast?_split hf
  have hfmem := List.mem_of_getLast? hf
  have hentries : entries (s.indexFileList.dropLast ++ [f']) = entries s.indexFileList ++ [u] := by
    conv_rhs => rw [hsplit]
    simp [hidx]
  have hnew : Holds s.log (entries s.indexFileList) (offset m) := by
    intro m' hm' hlt key' hkey'
    rcases h.cover m' hm' key' hkey' with h' | h' | h'
    · exact h'
    · have := h.le_work hb (List.mem_append_left _ (List.mem_map_of_mem h'))
      change offset m ≤ offset m' at this
      omega
    · have := h.le_work hb (List.mem_append_right _ h')
      change offset m ≤ offset m' at this
      omega
  have hmwork : m ∈ onTheWay s := by
    unfold onTheWay
    rw [hb]
    simp
  have hwork := h.work
  have hmem := h.work_mem
  unfold onTheWay at hwork hmem
  rw [hb, List.map_cons, List.cons_append] at hwork hmem
  refine ⟨h.min_nonneg, h.min_le, h.min_le_max, h.log, h.size, h.log_le,
    (List.pairwise_cons.mp hwork).2, fun m' hm' => hmem m' (List.mem_cons_of_mem _ hm'), ?_, ?_, ?_,
    fun g hg => ?_, fun g hg => ?_, fun g hg => ?_, ?_⟩
  · rw [hentries]
    intro m' hm' key' hkey'
    rcases h.cover m' hm' key' hkey' with h' | h' | h'
    · exact .inl (h'.mono (List.subset_append_left _ _))
    · rw [hb] at h'
      rcases List.mem_cons.mp h' with h' | h'
      · obtain ⟨rfl, rfl⟩ := Prod.mk.inj h'
        exact .inl ⟨u, by simp, hhash, hoff⟩
      · exact .inr (.inl h')
    · exact .inr (.inr h')
  · rw [hentries]
    intro us v us' hus
    rcases List.eq_nil_or_concat us' with rfl | ⟨us'', v', rfl⟩
    · obtain ⟨rfl, hv⟩ := List.append_inj' hus rfl
      obtain rfl := (List.cons.inj hv).1
      rw [hoff]
      exact hnew
    · rw [List.concat_eq_append, ← List.cons_append, ← List.append_assoc] at hus
      exact h.front us v us'' (List.append_inj' hus rfl).1
  · intro fs g fs' hfs hnil
    rcases List.eq_nil_or_concat fs' with rfl | ⟨fs'', g', rfl⟩
    · obtain ⟨-, hg⟩ := List.append_inj' hfs rfl
      rw [← (List.cons.inj hg).1, hidx] at hnil
      simp at hnil
    · rw [List.concat_eq_append, ← List.cons_append, ← List.append_assoc] at hfs
      refine h.empty fs g (fs'' ++ [f]) ?_ hnil
      rw [hsplit, (List.append_inj' hfs rfl).1]
      simp
  · rcases List.mem_append.mp hg with hg | hg
    · exact h.last g (List.dropLast_subset _ hg)
    · rw [List.mem_singleton.mp hg, hidx, List.getLast?_concat]
      intro v hv
      rw [Option.mem_some_iff.mp hv.symm, hend, hoff]
  · rcases List.mem_append.mp hg with hg | hg
    · exact h.sorted g (List.dropLast_subset _ hg)
    · rw [List.mem_singleton.mp hg, hidx]
      refine List.pairwise_append.mpr ⟨h.sorted f hfmem, List.pairwise_singleton _ _,
        fun a ha b hb' => ?_⟩
      rw [List.mem_singleton.mp hb', hoff]
      exact (h.le_end hfmem ha).trans (h.building (m, key) (by simp [hb]) f hf)
  · rcases List.mem_append.mp hg with hg | hg
    · exact h.ends g (List.dropLast_subset _ hg)
    · rw [List.mem_singleton.mp hg, hend]
      exact (h.work_mem m hmwork).2.le
  · intro p hp g hg
    rw [List.getLast?_concat, Option.mem_some_iff] at hg
    subst hg
    rw [hend]
    have hpwork : p.1 ∈ onTheWay s := by
      unfold onTheWay
      rw [hb]
      exact List.mem_append_left _ (List.mem_map_of_mem (List.mem_cons_of_mem _ hp))
    exact h.le_work hb hpwork

/-- The flush threads touch nothing of this. -/
lemma Inv.frame (h : Inv s) (flushing : List IndexFile) (indexMsgTimestamp : Int64) :
    Inv { s with flushing := flushing, indexMsgTimestamp := indexMsgTimestamp } :=
  ⟨h.min_nonneg, h.min_le, h.min_le_max, h.log, h.size, h.log_le, h.work, h.work_mem, h.cover,
    h.front, h.empty, h.last, h.sorted, h.ends, h.building⟩

lemma Inv.deleteLog (h : Inv s) {o : ℤ} (hmin : s.minOffset ≤ o) (hmax : o ≤ s.maxOffset) :
    Inv { s with log := s.log.filter fun m => decide (o ≤ m.commitLogOffset.toInt)
                 minOffset := o } := by
  have hsub : (s.log.filter fun m => decide (o ≤ m.commitLogOffset.toInt)) ⊆ s.log :=
    List.filter_sublist.subset
  refine ⟨h.min_nonneg.trans hmin, fun m hm => ?_, hmax, h.log.sublist List.filter_sublist,
    fun m hm => h.size m (hsub hm), fun m hm => h.log_le m (hsub hm), h.work, h.work_mem,
    fun m hm => h.cover m (hsub hm), fun us u us' hus => (h.front us u us' hus).sublog hsub,
    fun fs f fs' hfs hnil => (h.empty fs f fs' hfs hnil).sublog hsub, h.last, h.sorted, h.ends,
    h.building⟩
  exact of_decide_eq_true (List.mem_filter.mp hm).2

/-- Files that end in front of the log hold nothing of it. -/
lemma PresentIn.strip {minOffset : ℤ} {us us' : List IndexUnit} {m : DispatchRequest} {key : Text}
    (hm : minOffset ≤ offset m)
    (hold : ∀ u ∈ us, u.phyOffset.toInt < minOffset) (h : PresentIn (us ++ us') m key) :
    PresentIn us' m key := by
  obtain ⟨u, hu, h1, h2⟩ := h
  rcases List.mem_append.mp hu with hu | hu
  · have := hold u hu
    rw [h2] at this
    exact absurd this (Int.not_lt.mpr hm)
  · exact ⟨u, hu, h1, h2⟩

/-- Files go from the head. -/
lemma Inv.dropFiles (h : Inv s) {old files : List IndexFile}
    (hfiles : s.indexFileList = old ++ files)
    (hold : ∀ f ∈ old, f.endPhyOffset.toInt < s.minOffset) :
    Inv { s with indexFileList := files } := by
  have hmem : ∀ f ∈ files, f ∈ s.indexFileList := fun f hf => by
    rw [hfiles]
    exact List.mem_append_right _ hf
  have hentries : entries s.indexFileList = entries old ++ entries files := by
    rw [hfiles, entries_append]
  have hout : ∀ u ∈ entries old, u.phyOffset.toInt < s.minOffset := by
    intro u hu
    obtain ⟨f, hf, hu⟩ := List.mem_flatMap.mp hu
    have := h.le_end (by rw [hfiles]; exact List.mem_append_left _ hf) hu
    exact lt_of_le_of_lt this (hold f hf)
  have hstrip : ∀ us o, Holds s.log (entries old ++ us) o → Holds s.log us o :=
    fun us o hus m hm hlt key hkey =>
      (hus m hm hlt key hkey).strip (h.min_le m hm) hout
  refine ⟨h.min_nonneg, h.min_le, h.min_le_max, h.log, h.size, h.log_le, h.work, h.work_mem, ?_, ?_,
    ?_, fun f hf => h.last f (hmem f hf), fun f hf => h.sorted f (hmem f hf),
    fun f hf => h.ends f (hmem f hf), ?_⟩
  · intro m hm key hkey
    refine (h.cover m hm key hkey).imp_left fun h' => ?_
    rw [hentries] at h'
    exact h'.strip (h.min_le m hm) hout
  · intro us u us' hus
    change entries files = _ at hus
    refine hstrip us _ (h.front (entries old ++ us) u us' ?_)
    rw [hentries, hus, List.append_assoc]
  · intro fs f fs' hfs hnil
    change files = _ at hfs
    refine hstrip (entries fs) _ ?_
    rw [← entries_append]
    refine h.empty (old ++ fs) f fs' ?_ hnil
    rw [hfiles, hfs, List.append_assoc]
  · intro p hp f hf
    refine h.building p hp f ?_
    rw [hfiles, List.getLast?_append, Option.mem_def.mp hf]
    rfl

lemma Inv.deleteExpiredFile (h : Inv s) (destroys : IndexFile → Bool) :
    Inv { s with indexFileList :=
      IndexService.deleteExpiredFile s.minOffset destroys s.indexFileList } := by
  refine h.dropFiles (List.take_append_drop _ _).symm fun f hf => ?_
  have hprefix : ((s.indexFileList.dropLast.takeWhile
      fun f => decide (f.endPhyOffset.toInt < s.minOffset)).takeWhile destroys) <+:
      s.indexFileList :=
    ((List.takeWhile_prefix _).trans (List.takeWhile_prefix _)).trans (List.dropLast_prefix _)
  rw [← List.prefix_iff_eq_take.mp hprefix] at hf
  have := List.mem_takeWhile_imp ((List.takeWhile_prefix _).subset hf)
  exact of_decide_eq_true this

/-- What lies in front of the end of some files is in them. -/
lemma Inv.holds_endOf (h : Inv s) {fs fs' : List IndexFile} (hsplit : s.indexFileList = fs ++ fs') :
    Holds s.log (entries fs) (endOf s.minOffset fs) := by
  intro m hm hlt
  have hmin := h.min_le m hm
  unfold endOf at hlt
  cases hf : fs.getLast? with
  | none =>
    have hnonneg := h.min_nonneg
    rw [hf, Option.map_none, Option.getD_none] at hlt
    omega
  | some f =>
    rw [hf, Option.map_some, Option.getD_some] at hlt
    have hfs := getLast?_split hf
    have := @Inv.holds_end _ h fs.dropLast fs' f (by rw [hsplit]; conv_lhs => rw [hfs]; simp)
    rw [← hfs] at this
    exact this m hm (by omega)

/-- What lies in front of the end of a file that survived is in the files that survived. -/
lemma Inv.holds_survivor (h : Inv s) {fs fs' : List IndexFile} {f f' : IndexFile}
    (hsplit : s.indexFileList = fs ++ f :: fs') (he : Earlier (endOf s.minOffset fs) f' f) :
    Holds s.log (entries (fs ++ [f'])) f'.endPhyOffset.toInt := by
  rcases List.eq_nil_or_concat f'.indexes with hnil | ⟨us, v, hus⟩
  · have hend := he.empty hnil
    intro m hm hlt key hkey
    refine (h.holds_endOf hsplit m hm (lt_of_lt_of_le hlt hend) key hkey).mono ?_
    simp
  · rw [List.concat_eq_append] at hus
    obtain ⟨us', hus'⟩ := he.indexes
    rw [he.last v (by simp [hus])]
    refine (h.front (entries fs ++ us) v (us' ++ entries fs') ?_).mono ?_
    · rw [hsplit, entries_append]
      simp [entries, ← hus', hus]
    · rw [entries_append, entries_singleton, hus, ← List.append_assoc]
      exact List.subset_append_left _ _

lemma cutLog_sublist (maxOffset : ℤ) (log : List DispatchRequest) :
    (cutLog maxOffset log).Sublist log := List.filter_sublist

lemma Inv.ordered (h : Inv s) {log : List DispatchRequest} (hsub : log.Sublist s.log) :
    Ordered log := by
  refine (h.log.sublist hsub).imp_of_mem fun {m m'} hm _ hle => ?_
  have := h.size m (hsub.subset hm)
  omega

/-- The files that survived are as the invariant wants them. -/
lemma Inv.survives (h : Inv s) {files : List IndexFile} {log : List DispatchRequest} {o : ℤ}
    {requests : List DispatchRequest} (hs : Survives s.minOffset s.indexFileList files)
    (hlog : log.Sublist s.log) (hmax : s.minOffset ≤ o) (hle : ∀ m ∈ log, recordEnd m ≤ o)
    (hreq : requests.Sublist log) (hends : ∀ f ∈ files, f.endPhyOffset.toInt ≤ o)
    (hcover : ∀ m ∈ log, indexKeys m ≠ [] →
      m ∈ requests ∨ ∃ f ∈ files.getLast?, m.commitLogOffset < f.endPhyOffset) :
    Inv { s with
      log := log, maxOffset := o, requests := requests, requestQueue := [], building := []
      indexFileList := files, flushing := [] } := by
  have hsub := hlog.subset
  have hwork : ∀ m ∈ requests, 0 ≤ offset m ∧ offset m < o := by
    intro m hm
    have hm' := hreq.subset hm
    have h1 := h.min_le m (hsub hm')
    have h2 := h.min_nonneg
    have h3 := h.size m (hsub hm')
    have h4 := hle m hm'
    omega
  have hcover' : ∀ us, (∀ m ∈ log, ∀ f ∈ files.getLast?, m.commitLogOffset < f.endPhyOffset →
      ∀ key ∈ indexKeys m, PresentIn us m key) → ∀ m ∈ log, ∀ key ∈ indexKeys m,
      PresentIn us m key ∨ (m, key) ∈ ([] : List (DispatchRequest × Text)) ∨
        m ∈ ([] : List (List DispatchRequest)).flatten ++ requests := by
    intro us hus m hm key hkey
    rcases hcover m hm (List.ne_nil_of_mem hkey) with h' | ⟨f, hf, hlt⟩
    · exact .inr (.inr h')
    · exact .inl (hus m hm f hf hlt key hkey)
  rcases hs with rfl | ⟨fs, f, fs', f', hsplit, rfl, he⟩
  · exact ⟨h.min_nonneg, fun m hm => h.min_le m (hsub hm), hmax, h.log.sublist hlog,
      fun m hm => h.size m (hsub hm), hle, h.ordered (hreq.trans hlog), hwork,
      hcover' [] (by simp), by simp [entries], by simp, by simp, by simp, by simp, by simp⟩
  · have hfs : ∀ g ∈ fs, g ∈ s.indexFileList := fun g hg => by
      rw [hsplit]
      exact List.mem_append_left _ hg
    have hf : f ∈ s.indexFileList := by
      rw [hsplit]
      simp
    refine ⟨h.min_nonneg, fun m hm => h.min_le m (hsub hm), hmax, h.log.sublist hlog,
      fun m hm => h.size m (hsub hm), hle, h.ordered (hreq.trans hlog), hwork,
      hcover' _ ?_, ?_, ?_, fun g hg => ?_, fun g hg => ?_, hends, by simp⟩
    · intro m hm g hg hlt key hkey
      rw [List.getLast?_concat, Option.mem_some_iff] at hg
      subst hg
      exact h.holds_survivor hsplit he m (hsub hm) (Int64.lt_iff_toInt_lt.mp hlt) key hkey
    · -- the entries that are left are a beginning of the entries there were
      intro us u us' hus
      obtain ⟨t, ht⟩ := he.indexes
      refine (h.front us u (us' ++ t ++ entries fs') ?_).sublog hsub
      change entries (fs ++ [f']) = _ at hus
      rw [entries_append, entries_singleton] at hus
      rw [hsplit, entries_append]
      have : entries (f :: fs') = f'.indexes ++ (t ++ entries fs') := by
        simp [entries, ← ht]
      rw [this, ← List.append_assoc, hus]
      simp
    · intro gs g gs' hgs hnil
      change fs ++ [f'] = _ at hgs
      rcases List.eq_nil_or_concat gs' with rfl | ⟨gs'', g', rfl⟩
      · obtain ⟨rfl, hg⟩ := List.append_inj' hgs rfl
        obtain rfl := (List.cons.inj hg).1
        intro m hm hlt
        exact h.holds_endOf hsplit m (hsub hm) (lt_of_lt_of_le hlt (he.empty hnil))
      · rw [List.concat_eq_append, ← List.cons_append, ← List.append_assoc] at hgs
        have hfs' := (List.append_inj' hgs rfl).1
        refine (h.empty gs g (gs'' ++ f :: fs') ?_ hnil).sublog hsub
        rw [hsplit, hfs']
        simp
    · rcases List.mem_append.mp hg with hg | hg
      · exact h.last g (hfs g hg)
      · rw [List.mem_singleton.mp hg]
        exact he.last
    · rcases List.mem_append.mp hg with hg | hg
      · exact h.sorted g (hfs g hg)
      · rw [List.mem_singleton.mp hg]
        exact (h.sorted f hf).sublist he.indexes.sublist

/-- **A crash** that leaves what fits together. -/
lemma Inv.crash (h : Inv s) {files : List IndexFile} {maxOffset : ℤ} {minTimestampIndex : Int64}
    (hfits : Fits cfg s files maxOffset minTimestampIndex) :
    Inv { s with
      log := cutLog maxOffset s.log
      maxOffset := logEnd s.minOffset (cutLog maxOffset s.log)
      requests := replayed cfg minTimestampIndex (cutLog maxOffset s.log)
      requestQueue := [], building := [], indexFileList := files, flushing := [] } := by
  have hsub := cutLog_sublist maxOffset s.log
  have hle : ∀ m ∈ cutLog maxOffset s.log,
      recordEnd m ≤ logEnd s.minOffset (cutLog maxOffset s.log) := fun m hm =>
    recordEnd_le_logEnd (h.log.sublist hsub) (fun m' hm' => h.size m' (hsub.subset hm')) hm
  refine h.survives hfits.survives hsub ?_ hle (replayed_sublist _ _ _) hfits.ends hfits.replays
  rcases List.eq_nil_or_concat (cutLog maxOffset s.log) with hnil | ⟨ms, m, hms⟩
  · rw [hnil]
    exact le_rfl
  · have hm : m ∈ cutLog maxOffset s.log := by simp [hms]
    have h1 := h.min_le m (hsub.subset hm)
    have h2 := h.size m (hsub.subset hm)
    have h3 := hle m hm
    omega

/-- Making a file leaves the requests alone. -/
lemma rollFile_frame (s : IndexStore) (reqs : List (List DispatchRequest)) :
    IndexStore.rollFile { s with requestQueue := reqs } = { s.rollFile with requestQueue := reqs } ∧
      s.rollFile.building = s.building ∧ s.rollFile.requestQueue = s.requestQueue := by
  unfold IndexStore.rollFile
  cases s.indexFileList.getLast? with
  | none => exact ⟨rfl, rfl, rfl⟩
  | some f => exact ⟨rfl, rfl, rfl⟩

lemma needsFile_of_full {f : IndexFile} {key : Text} {o ts : Int64}
    (hf : s.indexFileList.getLast? = some f) (hput : f.putKey cfg key o ts = none) :
    s.needsFile cfg := by
  unfold IndexFile.putKey at hput
  split at hput
  · exact absurd hput (by simp)
  · next hfull =>
    simp only [IndexStore.needsFile, hf, Option.all_some, IndexFile.isWriteFull, decide_eq_true_eq]
    omega

/-- **What one step keeps.** -/
lemma Inv.step (h : Inv s) {a : Action} (hnever : NeverFull s a) (hsafe : Safe cfg s a)
    (hs : IndexService.step cfg s a = some s') : Inv s' := by
  cases a with
  | put m =>
    simp only [IndexService.step] at hs
    split at hs
    · next hc =>
      obtain rfl := Option.some.inj hs
      exact h.put hc.1 hc.2
    · exact absurd hs (by simp)
  | putRequest n =>
    simp only [IndexService.step, if_pos (show s.requestQueue.length < _ from hnever)] at hs
    obtain rfl := Option.some.inj hs
    refine h.move ?_
    rw [List.flatten_append, List.append_assoc]
    simp
  | poll created =>
    simp only [IndexService.step] at hs
    split at hs
    · next req reqs hb hq =>
      have hneeds :
          IndexStore.needsFile cfg { s with requestQueue := reqs } = s.needsFile cfg := rfl
      rw [hneeds] at hs
      by_cases hn : s.needsFile cfg
      · rw [if_pos hn, if_pos (hsafe hn)] at hs
        obtain rfl := Option.some.inj hs
        obtain ⟨hframe, hbuild, hqueue⟩ := rollFile_frame s reqs
        rw [hframe]
        exact h.rollFile.take (hbuild.trans hb) (hqueue.trans hq)
      · rw [if_neg hn] at hs
        obtain rfl := Option.some.inj hs
        exact h.take hb hq
    · exact absurd hs (by simp)
  | putKey created =>
    simp only [IndexService.step] at hs
    split at hs
    · next m key rest f hb hf =>
      split at hs
      · next f' hput =>
        obtain rfl := Option.some.inj hs
        exact h.putKey hb hf hput
      · next hput =>
        rw [if_pos (hsafe (needsFile_of_full hf hput))] at hs
        obtain rfl := Option.some.inj hs
        exact h.rollFile
    · exact absurd hs (by simp)
  | flush i =>
    simp only [IndexService.step] at hs
    split at hs
    · exact absurd hs (by simp)
    · obtain rfl := Option.some.inj hs
      exact h.frame _ _
  | deleteLog o =>
    simp only [IndexService.step] at hs
    split at hs
    · next hc =>
      obtain rfl := Option.some.inj hs
      exact h.deleteLog hc.1 hc.2
    · exact absurd hs (by simp)
  | deleteExpiredFile destroys =>
    obtain rfl := Option.some.inj hs
    exact h.deleteExpiredFile destroys
  | restart loaded =>
    simp only [IndexService.step] at hs
    split at hs
    · obtain rfl := Option.some.inj hs
      obtain ⟨hq, rfl⟩ := hsafe
      exact @Inv.move _ (h.frame [] s.indexMsgTimestamp) s.requests [] (by simp [hq])
    · exact absurd hs (by simp)
  | crash disk maxOffset minTimestamp =>
    obtain rfl := Option.some.inj hs
    exact h.crash hsafe

end Steps

/-! ### Runs -/

section Runs

lemma Inv.complete {s : IndexStore} (h : Inv s) (hidle : Idle s) : Complete s := by
  obtain ⟨hreq, hqueue, hbuild⟩ := hidle
  intro m hm key hkey
  rcases h.cover m hm key hkey with h' | h' | h'
  · exact exists_file h'
  · exact absurd h' (by simp [hbuild])
  · exact absurd h' (by simp [hreq, hqueue])

end Runs

/-! ### A batch that waits, and a crash -/

section Examples

/-- Two entries fit in a file. -/
def small : Config := ⟨4, 3, 1024⟩

def request (o : Int64) (storeTimestamp : Int64) (keys : Text) : DispatchRequest :=
  { DispatchRequest.ofSize 100 with
    topic := "T".toList, commitLogOffset := o, storeTimestamp := storeTimestamp, keys := some keys }

def first : DispatchRequest := request 0 10 "a b".toList
def second : DispatchRequest := request 100 20 "c".toList

/-- Where a run leads. -/
def after (as : List Action) : IndexStore := (run (step small) newStore as).getD newStore

/-- Both messages are indexed, in two files, and the first file is flushed. -/
def indexed : List Action :=
  [.put first, .put second, .putRequest 2, .poll true, .putKey true, .putKey true, .putKey true,
    .putKey true, .flush 0]

def restarted : List Action := indexed ++ [.restart (after indexed).indexFileList]

/-- The process ends; all that was written is found. -/
def crash : Action := .crash (after restarted).indexFileList 200 100

end Examples

end CloudMQ.IndexCompleteness
