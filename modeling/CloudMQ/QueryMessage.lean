import CloudMQ.Agreement
import CloudMQ.IndexQuery
import CloudMQ.MessageDecoder

/-!
`DefaultMessageStore.queryMessage`: the messages of the index hits for a topic and a key.

A hit is a match of hashes. The message is read back from the log, and its topic and its keys are
compared with what was asked for; but the flag that takes the answer is true before the comparison,
and the comparison only sets it to true. So a message that has keys at all is added at every hit.

Up to three rounds are made, each with the time of the first message of the round before as the end
of the interval, until messages with bytes have been added.
-/

namespace CloudMQ.QueryMessage

open CloudMQ.Buffer CloudMQ.Utf8 CloudMQ.Strings CloudMQ.Message CloudMQ.IndexService
open CloudMQ.IndexQuery CloudMQ.Segment CloudMQ.Chain CloudMQ.Append CloudMQ.LogBytes
open CloudMQ.MessageDecoder

/-! ### The model -/

structure QueryMessageResult where
  messageMapedList : List SelectMapedBufferResult
  indexLastUpdateTimestamp : Int64
  indexLastUpdatePhyoffset : Int64
  bufferTotalSize : Int32

def QueryMessageResult.new : QueryMessageResult := ⟨[], 0, 0, 0⟩

/-- The size of a result is that of its buffer. -/
def QueryMessageResult.addMessage (r : QueryMessageResult) (mapedBuffer : SelectMapedBufferResult) :
    QueryMessageResult :=
  { r with
    messageMapedList := r.messageMapedList ++ [mapedBuffer]
    bufferTotalSize := r.bufferTotalSize + Int32.ofNat mapedBuffer.byteBuffer.length }

/-- The flag `match`, as the loop over the keys leaves it. -/
def isMatch (topic key : Text) (msg : MessageExt) (keyArray : List Text) : Bool :=
  let initially := true
  if topic = msg.topic then if key ∈ keyArray then true else initially else initially

/-- The buffer is cut behind the message. That was read before, so it lies in the written part. -/
def limited (result : SelectMapedBufferResult) : Option SelectMapedBufferResult :=
  match getInt.run result.byteBuffer with
  | none => none
  | some (size, _) =>
    if 0 ≤ size.toInt ∧ size.toInt ≤ result.byteBuffer.length then
      some { result with byteBuffer := result.byteBuffer.take size.toInt.toNat }
    else none

section Query

variable (q : MapedFileQueue Bytes) (topic key : Text)

/-- What is added for a message that was read at an offset. Without keys it is an exception, which
is logged. -/
def selectMessage (offset : Int64) (msg : MessageExt) : Option SelectMapedBufferResult :=
  match msg.getProperty PROPERTY_KEYS with
  | none => none
  | some keys =>
    if isMatch topic key msg (split KEY_SEPARATOR keys) then
      (getData q offset.toInt.toNat false).bind limited
    else none

/-- What is added for a hit. -/
def selectHit (offset : Int64) : Option SelectMapedBufferResult :=
  match lookMessageByOffset q offset with
  | .ok (some msg) => selectMessage q topic key offset msg
  | _ => none

def addHit (r : QueryMessageResult) (offset : Int64) : QueryMessageResult :=
  match selectHit q topic key offset with
  | some mapedBuffer => r.addMessage mapedBuffer
  | none => r

/-- `lastQueryMsgTime` behind a round: only the first hit sets it. -/
def nextQueryMsgTime (lastQueryMsgTime : Int64) (phyOffsets : List Int64) : Int64 :=
  match phyOffsets.head?.map (lookMessageByOffset q) with
  | some (.ok (some msg)) => msg.storeTimestamp
  | _ => lastQueryMsgTime

/-- `Collections.sort`. -/
def sorted (phyOffsets : List Int64) : List Int64 := phyOffsets.mergeSort fun a b => decide (a ≤ b)

variable (cfg : Config) (maxMsgsNumBatch : Int32) (fuel : ℕ) (files : List IndexFile)
variable (maxNum : Int32) (beginTime : Int64)

/-- The rounds. An exception of `queryOffset` ends the call. -/
def queryRounds : ℕ → Int64 → QueryMessageResult → Option (Except Unit QueryMessageResult)
  | 0, _, r => some (.ok r)
  | n + 1, lastQueryMsgTime, r =>
    match queryOffset cfg maxMsgsNumBatch fuel files topic key maxNum beginTime
        lastQueryMsgTime with
    | none => none
    | some (.error e) => some (.error e)
    | some (.ok result) =>
      if result.phyOffsets = [] then some (.ok r)
      else
        let phyOffsets := sorted result.phyOffsets
        let r := phyOffsets.foldl (addHit q topic key)
          { r with
            indexLastUpdatePhyoffset := result.indexLastUpdatePhyoffset
            indexLastUpdateTimestamp := result.indexLastUpdateTimestamp }
        let lastQueryMsgTime := nextQueryMsgTime q lastQueryMsgTime phyOffsets
        if 0 < r.bufferTotalSize then some (.ok r)
        else if lastQueryMsgTime < beginTime then some (.ok r)
        else queryRounds n lastQueryMsgTime r

def queryMessage (endTime : Int64) : Option (Except Unit QueryMessageResult) :=
  queryRounds q topic key cfg maxMsgsNumBatch fuel files maxNum beginTime 3 endTime .new

/-! ### What is promised -/

/-- The message has the topic and the key. -/
def Matches (msg : MessageExt) : Prop :=
  msg.topic = topic ∧
    ∃ keys, msg.getProperty PROPERTY_KEYS = some keys ∧ key ∈ split KEY_SEPARATOR keys

/-- Every message of the result has the topic and the key, and none is there twice. -/
def Sound (r : QueryMessageResult) : Prop :=
  (∀ x ∈ r.messageMapedList, ∃ msg, decode x.byteBuffer = some msg ∧ Matches topic key msg) ∧
    (r.messageMapedList.map SelectMapedBufferResult.startOffset).Nodup

/-- The message the log has at a hit, if it has keys. -/
def messageAt (offset : Int64) : Option (Int64 × MessageExt) :=
  match lookMessageByOffset q offset with
  | .ok (some msg) =>
    if (msg.getProperty PROPERTY_KEYS).isSome && (getData q offset.toInt.toNat false).isSome then
      some (offset, msg)
    else none
  | _ => none

/-- The hits of a round, in their order. -/
def hitsOf (lastQueryMsgTime : Int64) : List Int64 :=
  match queryOffset cfg maxMsgsNumBatch fuel files topic key maxNum beginTime lastQueryMsgTime with
  | some (.ok result) => sorted result.phyOffsets
  | _ => []

/-- The bytes of messages, counted in an `int`. -/
def totalSize (ms : List (Int64 × MessageExt)) : Int32 :=
  ms.foldl (fun n x => n + x.2.storeSize) 0

/-- The hits of all rounds at which the log has a message with keys: a round follows on one with
hits, as long as none of the messages has bytes and the interval is not empty. -/
def hitMessages : ℕ → Int64 → List (Int64 × MessageExt) → List (Int64 × MessageExt)
  | 0, _, before => before
  | n + 1, lastQueryMsgTime, before =>
    let offsets := hitsOf topic key cfg maxMsgsNumBatch fuel files maxNum beginTime lastQueryMsgTime
    let ms := before ++ offsets.filterMap (messageAt q)
    let next := nextQueryMsgTime q lastQueryMsgTime offsets
    if offsets = [] ∨ 0 < totalSize ms ∨ next < beginTime then ms else hitMessages n next ms

/-- No hash collision among the hits, and no hit twice. -/
def Apart (ms : List (Int64 × MessageExt)) : Prop :=
  (∀ x ∈ ms, Matches topic key x.2) ∧ (ms.map Prod.fst).Nodup

end Query

/-! ### A hit -/

section Hit

variable {q : MapedFileQueue Bytes} {topic key : Text} {offset : Int64} {msg : MessageExt}

lemma isMatch_eq (topic key : Text) (msg : MessageExt) (keyArray : List Text) :
    isMatch topic key msg keyArray = true := by
  simp [isMatch]

/-- An `int` is read at the beginning. -/
lemma getInt_front {bs head rest : Bytes} {x : Int32} (hhead : getInt.run head = some (x, rest))
    (hfront : head <+: bs) : ∃ rest, getInt.run bs = some (x, rest) := by
  obtain ⟨tail, rfl⟩ := hfront
  exact ⟨rest ++ tail, by rw [getInt_eq_some hhead, List.append_assoc, getInt_putInt]⟩

/-- What `getMessage` reads in a file. -/
lemma getMessage_written (hc : Chained q) (hm : Mapped q) {f : MapedFile Bytes}
    (hf : q.findMapedFileByOffset offset.toInt.toNat false = some f) {size : Int32} {bs : Bytes}
    (h : getMessage q offset size = .ok (some bs)) :
    0 ≤ size.toInt ∧
      bs = ((written f).drop (offset.toInt.toNat % q.mapedFileSize)).take size.toInt.toNat ∧
      bs.length = size.toInt.toNat := by
  obtain ⟨hmem, hle, hlt⟩ := mem_of_find hc hf
  obtain ⟨-, hsize, f', hf', hend, rfl⟩ := getMessage_some h
  rw [find_of_mem hc hmem hle hlt, Option.some.injEq] at hf'
  subst hf'
  have hlen := length_written hc hm hmem
  have heq : ((written f).drop (offset.toInt.toNat % q.mapedFileSize)).take size.toInt.toNat =
      (f.mappedByteBuffer.drop (offset.toInt.toNat % q.mapedFileSize)).take size.toInt.toNat := by
    rw [written, List.drop_take, List.take_take, Nat.min_eq_left (by omega)]
  refine ⟨hsize, heq.symm, ?_⟩
  rw [← heq, List.length_take, List.length_drop]
  omega

/-- What is cut out of the log at an offset is the message that was read there. -/
lemma limited_of_look (hc : Chained q) (hm : Mapped q)
    (hlook : lookMessageByOffset q offset = .ok (some msg)) {result : SelectMapedBufferResult}
    (hdata : getData q offset.toInt.toNat false = some result) :
    ∃ mapedBuffer, limited result = some mapedBuffer ∧
      mapedBuffer.startOffset = offset.toInt.toNat ∧ decode mapedBuffer.byteBuffer = some msg ∧
      Int32.ofNat mapedBuffer.byteBuffer.length = msg.storeSize := by
  obtain ⟨f, hf, hsel⟩ := Option.bind_eq_some_iff.mp hdata
  obtain ⟨hmem, hle, hlt⟩ := mem_of_find hc hf
  have hmod := mod_eq_sub hc hmem hle hlt
  unfold LogBytes.selectMapedBuffer at hsel
  split at hsel
  case isFalse => exact absurd hsel (by simp)
  obtain rfl := Option.some.inj hsel
  unfold lookMessageByOffset at hlook
  split at hlook
  · exact absurd hlook (by simp)
  · exact absurd hlook (by simp)
  next head hhead =>
  split at hlook
  · exact absurd hlook (by simp)
  next size rest hsize =>
  cases hbs : getMessage q offset size with
  | error e => rw [hbs] at hlook; exact absurd hlook (by simp [Except.map])
  | ok r =>
    cases r with
    | none => rw [hbs] at hlook; exact absurd hlook (by simp [Except.map])
    | some bs =>
      rw [hbs] at hlook
      simp only [Except.map, Option.bind_some, Except.ok.injEq] at hlook
      obtain ⟨-, rfl, -⟩ := getMessage_written hc hm hf hhead
      obtain ⟨hnonneg, rfl, hlen⟩ := getMessage_written hc hm hf hbs
      obtain ⟨left, hint⟩ := getInt_front hsize (List.take_prefix _ _)
      -- the size that was read is the one in the message
      obtain ⟨⟨right, hstore⟩, -⟩ := decode_header hlook
      obtain ⟨left', hstore'⟩ := getInt_front hstore (List.take_prefix _ _)
      rw [hint, Option.some.injEq, Prod.mk.injEq] at hstore'
      obtain ⟨rfl, -⟩ := hstore'
      have hfits : msg.storeSize.toInt ≤
          ((written f).drop (offset.toInt.toNat % q.mapedFileSize)).length := by
        rw [List.length_take] at hlen
        omega
      have hstart : f.fileFromOffset + offset.toInt.toNat % q.mapedFileSize =
          offset.toInt.toNat := by omega
      have hsize' : Int32.ofNat (((written f).drop (offset.toInt.toNat % q.mapedFileSize)).take
          msg.storeSize.toInt.toNat).length = msg.storeSize := by
        rw [hlen, ← Int32.ofInt_eq_ofNat, Int.toNat_of_nonneg hnonneg, Int32.ofInt_toInt]
      simp only [limited, hint, if_pos (And.intro hnonneg hfits), Option.some.injEq,
        exists_eq_left']
      exact ⟨hstart, hlook, hsize'⟩

/-- A message of the result, and the hit it was added for. -/
def Shows (mapedBuffer : SelectMapedBufferResult) (x : Int64 × MessageExt) : Prop :=
  0 ≤ x.1.toInt ∧ mapedBuffer.startOffset = x.1.toInt.toNat ∧
    decode mapedBuffer.byteBuffer = some x.2 ∧
    Int32.ofNat mapedBuffer.byteBuffer.length = x.2.storeSize

/-- A hit adds the message the log has there, whatever its topic and its keys are. -/
lemma selectHit_spec (hc : Chained q) (hm : Mapped q) (topic key : Text) (offset : Int64) :
    Option.Rel Shows (selectHit q topic key offset) (messageAt q offset) := by
  unfold selectHit messageAt
  cases hlook : lookMessageByOffset q offset with
  | error e => exact .none
  | ok r =>
    cases r with
    | none => exact .none
    | some msg =>
      simp only [selectMessage]
      cases hkeys : msg.getProperty PROPERTY_KEYS with
      | none => exact .none
      | some keys =>
        simp only [isMatch_eq, if_true, Option.isSome_some, Bool.true_and]
        cases hdata : getData q offset.toInt.toNat false with
        | none => exact .none
        | some result =>
          obtain ⟨mapedBuffer, hcut, hrest⟩ := limited_of_look hc hm hlook hdata
          rw [Option.bind_some, hcut]
          exact .some ⟨(lookMessageByOffset_lt hc hlook).1, hrest⟩

end Hit

/-! ### The rounds -/

section Rounds

variable {q : MapedFileQueue Bytes} {topic key : Text}

/-- The result so far shows the hits so far. -/
structure ShowsAll (r : QueryMessageResult) (ms : List (Int64 × MessageExt)) : Prop where
  shows : List.Forall₂ Shows r.messageMapedList ms
  total : r.bufferTotalSize = totalSize ms

lemma totalSize_snoc (ms : List (Int64 × MessageExt)) (x : Int64 × MessageExt) :
    totalSize (ms ++ [x]) = totalSize ms + x.2.storeSize := by
  simp [totalSize]

lemma showsAll_addHits (hc : Chained q) (hm : Mapped q) (topic key : Text)
    {r : QueryMessageResult} {ms : List (Int64 × MessageExt)} (h : ShowsAll r ms)
    (offsets : List Int64) :
    ShowsAll (offsets.foldl (addHit q topic key) r) (ms ++ offsets.filterMap (messageAt q)) := by
  induction offsets generalizing r ms with
  | nil => simpa using h
  | cons offset offsets ih =>
    rw [List.foldl_cons]
    have hhit := selectHit_spec hc hm topic key offset
    cases hsel : selectHit q topic key offset with
    | none =>
      cases hat : messageAt q offset with
      | none =>
        rw [List.filterMap_cons_none hat, show addHit q topic key r offset = r by
          simp [addHit, hsel]]
        exact ih h
      | some x => rw [hsel, hat] at hhit; cases hhit
    | some mapedBuffer =>
      cases hat : messageAt q offset with
      | none => rw [hsel, hat] at hhit; cases hhit
      | some x =>
        rw [hsel, hat] at hhit
        obtain ⟨hshows⟩ := hhit
        rw [List.filterMap_cons_some hat, List.append_cons,
          show addHit q topic key r offset = r.addMessage mapedBuffer by simp [addHit, hsel]]
        refine ih ⟨List.rel_append h.shows (.cons hshows .nil), ?_⟩
        rw [totalSize_snoc, ← h.total, ← hshows.2.2.2]
        rfl

lemma forall_shows {xs : List SelectMapedBufferResult} {ms : List (Int64 × MessageExt)}
    (h : List.Forall₂ Shows xs ms) (P : MessageExt → Prop) :
    (∀ x ∈ xs, ∃ msg, decode x.byteBuffer = some msg ∧ P msg) ↔ ∀ x ∈ ms, P x.2 := by
  induction h with
  | nil => simp
  | @cons x y xs ms hshows _ ih =>
    simp only [List.forall_mem_cons, ih]
    refine and_congr_left fun _ => ?_
    rw [hshows.2.2.1]
    simp

lemma startOffsets_eq {xs : List SelectMapedBufferResult} {ms : List (Int64 × MessageExt)}
    (h : List.Forall₂ Shows xs ms) :
    xs.map SelectMapedBufferResult.startOffset = (ms.map Prod.fst).map fun o => o.toInt.toNat := by
  induction h with
  | nil => rfl
  | cons hshows _ ih => simp only [List.map_cons, ih, hshows.2.1]

/-- A result is sound when the hits it shows are apart. -/
lemma sound_iff_apart {r : QueryMessageResult} {ms : List (Int64 × MessageExt)}
    (h : List.Forall₂ Shows r.messageMapedList ms) : Sound topic key r ↔ Apart topic key ms := by
  have hnonneg : ∀ o ∈ ms.map Prod.fst, 0 ≤ o.toInt := by
    intro o ho
    obtain ⟨x, hx, rfl⟩ := List.mem_map.mp ho
    obtain ⟨i, hi, rfl⟩ := List.getElem_of_mem hx
    exact (h.get (h.length_eq ▸ hi) hi).1
  refine and_congr (forall_shows h _) ?_
  rw [startOffsets_eq h]
  refine ⟨List.Nodup.of_map _, List.Nodup.map_on fun o ho o' ho' heq => ?_⟩
  have := hnonneg o ho
  have := hnonneg o' ho'
  exact Int64.toInt_inj.mp (by omega)

variable {cfg : Config} {maxMsgsNumBatch : Int32} {fuel : ℕ} {files : List IndexFile}
variable {maxNum : Int32} {beginTime : Int64}

/-- The rounds show the hits they come to. -/
lemma showsAll_queryRounds (hc : Chained q) (hm : Mapped q) {n : ℕ} {lastQueryMsgTime : Int64}
    {r r' : QueryMessageResult} {ms : List (Int64 × MessageExt)} (h : ShowsAll r ms)
    (hrun : queryRounds q topic key cfg maxMsgsNumBatch fuel files maxNum beginTime n
      lastQueryMsgTime r = some (.ok r')) :
    ShowsAll r' (hitMessages q topic key cfg maxMsgsNumBatch fuel files maxNum beginTime n
      lastQueryMsgTime ms) := by
  induction n generalizing lastQueryMsgTime r ms with
  | zero =>
    obtain rfl : r = r' := by simpa [queryRounds] using hrun
    exact h
  | succ n ih =>
    unfold queryRounds at hrun
    unfold hitMessages hitsOf
    split at hrun
    case h_1 => cases hrun
    case h_2 => cases hrun
    next result hquery =>
    simp only [hquery]
    by_cases hnone : result.phyOffsets = []
    · rw [if_pos hnone] at hrun
      obtain rfl : r = r' := by simpa using hrun
      rw [hnone, sorted, List.mergeSort_nil, if_pos (.inl rfl)]
      simpa using h
    · have hsome : sorted result.phyOffsets ≠ [] := fun h0 => hnone (List.eq_nil_of_length_eq_zero
        (by rw [← List.length_mergeSort result.phyOffsets]
            exact congrArg List.length h0))
      rw [if_neg hnone] at hrun
      have hstart : ShowsAll { r with
          indexLastUpdatePhyoffset := result.indexLastUpdatePhyoffset
          indexLastUpdateTimestamp := result.indexLastUpdateTimestamp } ms := ⟨h.shows, h.total⟩
      have hround := showsAll_addHits hc hm topic key hstart (sorted result.phyOffsets)
      simp only [hround.total] at hrun
      by_cases hbytes : 0 < totalSize (ms ++ (sorted result.phyOffsets).filterMap (messageAt q))
      · rw [if_pos hbytes] at hrun
        rw [if_pos (.inr (.inl hbytes)), ← Except.ok.inj (Option.some.inj hrun)]
        exact hround
      · rw [if_neg hbytes] at hrun
        by_cases hearly :
            nextQueryMsgTime q lastQueryMsgTime (sorted result.phyOffsets) < beginTime
        · rw [if_pos hearly] at hrun
          rw [if_pos (.inr (.inr hearly)), ← Except.ok.inj (Option.some.inj hrun)]
          exact hround
        · rw [if_neg hearly] at hrun
          rw [if_neg (by tauto)]
          exact ih hround hrun

/-- **A query is sound** just when there is no hash collision among the hits it comes to, and none
of them is there twice. -/
theorem added_iff (hc : Chained q) (hm : Mapped q) {endTime : Int64} {r : QueryMessageResult}
    (hrun : queryMessage q topic key cfg maxMsgsNumBatch fuel files maxNum beginTime endTime =
      some (.ok r)) :
    Sound topic key r ↔
      Apart topic key (hitMessages q topic key cfg maxMsgsNumBatch fuel files maxNum beginTime 3
        endTime []) :=
  sound_iff_apart (showsAll_queryRounds hc hm ⟨.nil, rfl⟩ hrun).shows

end Rounds

/-! ### Two keys with one hash -/

section Examples

/-- A message of the topic `T` with the key `BB`, as the log has it at the offset 0. -/
def record : Bytes :=
  let m : MessageExtBrokerInner := { Agreement.messageTo "T".toList with
    storeTimestamp := 5000
    propertiesString :=
      some (PROPERTY_KEYS ++ NAME_VALUE_SEPARATOR :: "BB".toList ++ [PROPERTY_SEPARATOR]) }
  Record.recordBytes m (Int32.ofInt (Record.msgLen m)) [127, 0, 0, 1, 0, 0, 42, 159]
    [127, 0, 0, 1, 0, 0, 42, 159] 0 0

def oneMessage : MapedFileQueue Bytes :=
  ⟨1024, pos_1024, [{
    fileFromOffset := 0
    mappedByteBuffer := record ++ List.replicate (1024 - record.length) 0
    wrotePostion := record.length }], 0, 0⟩

lemma chained_oneMessage : Chained oneMessage := ⟨List.isChain_singleton _, by decide, by decide⟩

lemma mapped_oneMessage : Mapped oneMessage := by
  intro f hf
  obtain rfl := List.mem_singleton.mp hf
  have hfits : record.length ≤ 1024 := by decide
  rw [List.length_append, List.length_replicate]
  exact Nat.add_sub_cancel' hfits

/-- Nine entries fit in a file. -/
def wide : Config := ⟨4, 10, 1024⟩

/-- The index of the message. -/
def indexOfMessage : List IndexFile :=
  (buildIndex wide 10 [] [IndexCompleteness.request 0 5000 "BB".toList]).getD []

def query (key : String) : Option (Except Unit QueryMessageResult) :=
  queryMessage oneMessage "T".toList key.toList wide 64 10 indexOfMessage 10 0 10000

/-- What a query gives: where its messages begin, and their keys. -/
def answerOf (key : String) : Option (List (ℕ × Option (Option Text))) :=
  match query key with
  | some (.ok r) => some (r.messageMapedList.map fun x =>
      (x.startOffset, (decode x.byteBuffer).map fun msg => msg.getProperty PROPERTY_KEYS))
  | _ => none

/-- The hits of a query for a key. -/
def hitsFor (key : String) : List (Int64 × MessageExt) :=
  hitMessages oneMessage "T".toList key.toList wide 64 10 indexOfMessage 10 0 3 10000 []

/-- What is answered for the two keys, and what is hit for the second. -/
lemma answers : answerOf "Aa" = some [(0, some (some "BB".toList))] ∧ (answerOf "BB").isSome ∧
    (hitsFor "BB").map (fun x => (x.1, x.2.topic, x.2.getProperty PROPERTY_KEYS)) =
      [(0, "T".toList, some "BB".toList)] := by
  decide +kernel

/-- The keys `Aa` and `BB` have one hash: who asks for the one gets the message with the other. -/
theorem added_collision : Chained oneMessage ∧ Mapped oneMessage ∧
    ∃ r, query "Aa" = some (.ok r) ∧ ¬ Sound "T".toList "Aa".toList r := by
  refine ⟨chained_oneMessage, mapped_oneMessage, ?_⟩
  have hanswer := answers.1
  unfold answerOf at hanswer
  split at hanswer
  case h_2 => cases hanswer
  next r hr =>
  refine ⟨r, hr, fun hsound => ?_⟩
  obtain ⟨x, hx⟩ : ∃ x, r.messageMapedList = [x] :=
    List.length_eq_one_iff.mp (by simpa using congrArg List.length (Option.some.inj hanswer))
  obtain ⟨msg, hdecode, -, keys, hkeys, hmem⟩ := hsound.1 x (hx ▸ List.mem_singleton_self x)
  simp only [hx, List.map_singleton, hdecode, Option.map_some, hkeys, Option.some.injEq,
    List.cons.injEq, Prod.mk.injEq] at hanswer
  rw [hanswer.1.2] at hmem
  exact absurd hmem (by decide)

lemma apart_ownKey : Apart "T".toList "BB".toList (hitsFor "BB") := by
  have hhits := answers.2.2
  obtain ⟨x, hx⟩ : ∃ x, hitsFor "BB" = [x] :=
    List.length_eq_one_iff.mp (by simpa using congrArg List.length hhits)
  rw [hx, List.map_singleton, List.cons.injEq, Prod.mk.injEq, Prod.mk.injEq] at hhits
  rw [hx]
  refine ⟨fun y hy => ?_, List.nodup_singleton _⟩
  obtain rfl := List.mem_singleton.mp hy
  exact ⟨hhits.1.2.1, _, hhits.1.2.2, by decide⟩

/-- Who asks for its own key gets what it asked for. -/
theorem added_ownKey : ∃ r, query "BB" = some (.ok r) ∧ Sound "T".toList "BB".toList r := by
  have hanswer := answers.2.1
  unfold answerOf at hanswer
  split at hanswer
  case h_2 => cases hanswer
  next r hr => exact ⟨r, hr, (added_iff chained_oneMessage mapped_oneMessage hr).mpr apart_ownKey⟩

end Examples

end CloudMQ.QueryMessage
