import CloudMQ.ClientDecoder
import CloudMQ.GetMessage
import CloudMQ.Tiling

/-!
The detour of a delayed message: `CommitLog.putMessage` writes it to the schedule topic,
`lookMessageByOffset` reads it there, `messageTimeup` makes a message of it that has its own topic
and queue again, and that is put.

What the detour leaves of a message passes through a record and through a properties string. Both
keep what they can tell apart: a topic that is itself an item of properties is lost, so are
properties behind the 32767th byte, and a tags code that is not the one of the tags is made anew.
-/

namespace CloudMQ.DelayDetour

open CloudMQ.Buffer CloudMQ.Utf8 CloudMQ.Strings CloudMQ.Message CloudMQ.Record CloudMQ.Codec
open CloudMQ.Segment CloudMQ.Chain CloudMQ.CommitLog CloudMQ.Append CloudMQ.Agreement
open CloudMQ.LogBytes CloudMQ.Puts CloudMQ.Properties CloudMQ.MessageDecoder
open CloudMQ.SendMessageBack CloudMQ.ClientDecoder CloudMQ.GetMessage
open CloudMQ.RetryChain hiding Kept

variable {cfg : MessageStoreConfig} {env : Env} {order : EntryOrder}
  {m m' record : MessageExtBrokerInner} {log log' : Log} {put : Put}
  {result : AppendMessageResult} {q : MapedFileQueue Bytes} {bs : Bytes} {o : ℕ} {offset : Int64}

/-! ### What a put leaves in the log -/

/-- The put appended a record. -/
structure Appends (cfg : MessageStoreConfig) (env : Env) (m : MessageExtBrokerInner)
    (log log' : Log) (put : Put) (result : AppendMessageResult) : Prop where
  returned : putMessage cfg env m log = (log', .ok put)
  appended : put.result.appendMessageResult = some result
  status : result.status = .PUT_OK

/-- The bytes are the record of the message, with its hosts. -/
structure RecordOf (record : MessageExtBrokerInner) (result : AppendMessageResult) (bs : Bytes) :
    Prop where
  size : (Int32.ofNat (recordSize record)).toInt = bs.length
  bytes : ∃ bornHost storeHost, SocketAddress2ByteBuffer record.bornHost = some bornHost ∧
    SocketAddress2ByteBuffer record.storeHost = some storeHost ∧
    bs = recordBytes record (Int32.ofNat (recordSize record)) bornHost storeHost
      result.logicsOffset result.wroteOffset

/-- The bytes stand in one file. -/
structure StandsInFile (q : MapedFileQueue Bytes) (o : ℕ) (bs : Bytes) : Prop where
  stands : StandsAt q o bs
  room : o % q.mapedFileSize + bs.length ≤ q.mapedFileSize

lemma StandsInFile.kept (h : StandsInFile log.mapedFileQueue o bs) (hkept : Kept log log') :
    StandsInFile log'.mapedFileQueue o bs :=
  ⟨h.stands.mono hkept.agrees, hkept.size_eq.symm ▸ h.room⟩

/-- An append that fails leaves nothing that was written. -/
lemma not_ok_of_failed {status : PutMessageStatus}
    (h : putLocked cfg env m log = (log', .failed status (some result))) :
    result.status ≠ .PUT_OK := by
  unfold putLocked at h
  split at h
  · cases h
  · cases h
  · split at h
    · cases h
    · next hend =>
      split at h
      · cases h
        rw [hend]
        simp
      · cases h
      · cases h
    · next hsize =>
      cases h
      rw [hsize]
      simp
    · next hunknown =>
      cases h
      rw [hunknown]
      simp

lemma putInt_inj {a b : Int32} (h : putInt a = putInt b) : a = b := by
  have ha := getInt_putInt a []
  rw [h, getInt_putInt, Option.some.injEq, Prod.mk.injEq] at ha
  exact ha.1.symm

/-- What is appended goes to one file. -/
lemma room_of_appendedTo {memory : ℕ → UInt8} {fresh : Option (ℕ → UInt8)} {f : MapedFile Bytes}
    (hlog : LogOK log) (h : AppendedTo cfg memory fresh m log log' result f q bs) :
    (f.fileFromOffset + f.wrotePostion) % log'.mapedFileQueue.mapedFileSize + bs.length ≤
      log'.mapedFileQueue.mapedFileSize := by
  have hsize : log'.mapedFileQueue.mapedFileSize = log.mapedFileQueue.mapedFileSize := by
    rw [h.queue]
    exact h.size
  have hmem : grown f result bs ∈ log'.mapedFileQueue.mapedFiles := by
    rw [h.queue]
    simp [MapedFileQueue.setLast]
  have hlt := h.lt
  have hmod := mod_eq_sub (h.logOK hlog).chained hmem
    (Nat.le_add_right f.fileFromOffset f.wrotePostion)
    (by rw [hsize]; exact Nat.add_lt_add_left hlt f.fileFromOffset)
  rw [hmod, hsize, h.length_eq]
  change f.fileFromOffset + f.wrotePostion - f.fileFromOffset + result.wroteBytes ≤ _
  have hroom := h.room
  omega

/-- **What a put leaves in the log**: the record of the prepared message, with its hosts. -/
lemma recorded_of_appends (hlog : LogOK log) (h : Appends cfg env m log log' put result) :
    ∃ m' tagsCode bs, prepare cfg env m = some (m', tagsCode) ∧
      put.dispatched = some (dispatchRequest (stamp env m') tagsCode result) ∧
      WroteMessage (stamp env m') log log' result ∧ RecordOf (stamp env m') result bs ∧
      StandsInFile log'.mapedFileQueue result.wroteOffset bs := by
  obtain ⟨hput, hres, hok⟩ := h
  unfold putMessage at hput
  split at hput
  · cases hput
  next m' tagsCode hprep =>
  dsimp only at hput
  split at hput
  · cases hput
  · next hfailed =>
    cases hput
    dsimp only at hres
    subst hres
    exact absurd hok (not_ok_of_failed hfailed)
  · next log₁ result₁ hstored =>
    cases hput
    obtain rfl : result = result₁ := (Option.some.inj hres).symm
    have hwrote : WroteMessage (stamp env m') log log' result := by
      obtain ⟨-, ⟨_, hout, -, -, hwrote⟩ | ⟨hend, -⟩⟩ := putLocked_spec hlog hstored
      · obtain rfl := Locked.stored.inj hout
        exact hwrote
      · rw [(hend result rfl).2] at hok
        cases hok
    obtain ⟨log₁, fresh, memory, f, q, bs, hok₁, hsize, hap, hcalled, -⟩ :=
      putLocked_called hlog hstored
    obtain ⟨hkept, -, -, hstands⟩ := kept_appendedTo hok₁ hap
    refine ⟨m', tagsCode, bs, hprep, rfl, hwrote, ?_⟩
    rcases hap.wrote with hw | hw | ⟨rfl, -⟩
    · obtain ⟨len, bornHost, storeHost, hborn, hstore, hbytes⟩ :=
        StoredMessage.record ⟨stamp env m', result, bs, ⟨_, _, _, _, _, _, _, hcalled⟩, hok⟩
      obtain ⟨bornHost', storeHost', hb, hs, hbs⟩ := hw.bytes
      -- the length that was written is the one of the record
      have hlen : len = Int32.ofNat (recordSize (stamp env m')) := by
        have heq := hbytes.symm.trans hbs
        rw [recordBytes_eq, recordBytes_eq] at heq
        exact putInt_inj (List.append_inj heq (by rw [length_putInt, length_putInt])).1
      rw [hlen] at hbytes
      have hlength : bs.length = recordSize (stamp env m') := by
        rw [hbs, length_recordBytes hb hs]
      refine ⟨⟨?_, bornHost, storeHost, hborn, hstore, hbytes⟩, ?_⟩
      · rw [hlength, Int32.toInt_ofNat_of_lt hwrote.size_lt]
      · rw [hw.wroteOffset]
        exact ⟨hstands, room_of_appendedTo hok₁ hap⟩
    · rw [hw.status] at hok
      cases hok
    · cases hok

/-! ### Looking it up -/

/-- The file of the bytes has them all. -/
lemma StandsInFile.file (h : StandsInFile q o bs) (hc : Chained q) (hm : Mapped q)
    (hpos : 0 < bs.length) :
    ∃ f ∈ q.mapedFiles, f.fileFromOffset ≤ o ∧ o % q.mapedFileSize = o - f.fileFromOffset ∧
      o - f.fileFromOffset + bs.length ≤ f.wrotePostion := by
  have hfirst : byteAt q o = _ := h.stands 0 _ (List.getElem?_eq_getElem hpos)
  have hlast := h.stands (bs.length - 1) _ (List.getElem?_eq_getElem (by omega))
  obtain ⟨f, hmem, hle, hb⟩ := (byteAt_eq_some_iff hc hm).mp hfirst
  have hlen := (List.getElem?_eq_some_iff.mp hb).1
  rw [length_written hc hm hmem] at hlen
  have hlt : o < f.fileFromOffset + q.mapedFileSize := by
    have := wrote_le hc hmem
    omega
  have hmod := mod_eq_sub hc hmem hle hlt
  have hroom := h.room
  rw [hmod] at hroom
  have hwrote := lt_wrote hc hmem (o := o + (bs.length - 1)) (by omega) (byteAt_lt hc hm hlast)
  exact ⟨f, hmem, hle, hmod, by omega⟩

/-- What stands in one file is read, from its beginning on. -/
lemma StandsInFile.getMessage (h : StandsInFile q o bs) (hc : Chained q) (hm : Mapped q)
    (havailable : ∀ f ∈ q.mapedFiles, f.available) (hoffset : offset.toInt = o) {size : Int32}
    {n : ℕ} (hpos : 0 < bs.length) (hn : n ≤ bs.length) (hsize : size.toInt = n) :
    MessageDecoder.getMessage q offset size = .ok (some (bs.take n)) := by
  obtain ⟨f, hmem, hle, -, hwrote⟩ := h.file hc hm hpos
  have hf := wrote_le hc hmem
  have hselect : selectMessage q offset size = _ :=
    selectMessage_of_mem hc hmem (show o - f.fileFromOffset < q.mapedFileSize by omega) (by omega)
      (by omega) (havailable f hmem) (by omega)
  have hget := selectMessage_eq (q := q) offset size
  rw [hselect] at hget
  obtain ⟨slice, hslice⟩ : ∃ slice, MessageDecoder.getMessage q offset size = .ok (some slice) :=
    ⟨_, hget.symm⟩
  have hnat : offset.toInt.toNat = o := by omega
  obtain ⟨hstands, hlen⟩ := getMessage_stands hc hm
    (hnat.symm ▸ h.stands 0 _ (List.getElem?_eq_getElem hpos)) hslice
  rw [hnat] at hstands
  have hlen' : slice.length = n := by omega
  have hpre := prefix_of_standsAt hstands h.stands (by omega)
  rw [hslice, List.prefix_iff_eq_take.mp hpre, hlen']

/-- A port, as `InetSocketAddress` allows it. -/
def ValidPort (h : InetSocketAddress) : Prop := 0 ≤ h.port.toInt ∧ h.port.toInt ≤ 0xFFFF

/-- A message with a delay, whose properties can be written. -/
structure Delayed (m : MessageExtBrokerInner) : Prop where
  tranType : getTransactionValue m.sysFlag = TransactionNotType ∨
    getTransactionValue m.sysFlag = TransactionCommitType
  level : ∃ level, m.getDelayTimeLevel = some level ∧ 0 < level
  clean : CleanProps m.properties
  bornHost : ValidPort m.bornHost
  storeHost : ValidPort m.storeHost

/-- The record and the request are those of the message, but for what the delay wrote. -/
structure Returned (m record : MessageExtBrokerInner) (request : DispatchRequest) : Prop where
  topic : record.topic = m.topic
  queueId : record.queueId = m.queueId
  body : record.bodyBytes = m.bodyBytes
  flag : record.flag = m.flag
  sysFlag : record.sysFlag = m.sysFlag
  bornHost : record.bornHost = m.bornHost
  bornTimestamp : record.bornTimestamp = m.bornTimestamp
  reconsumeTimes : record.reconsumeTimes = m.reconsumeTimes
  properties : ∀ name ∉ scheduleNames, (storedProps record).get name = m.properties.get name
  requestTopic : request.topic = m.topic
  requestQueueId : request.queueId = m.queueId
  requestTagsCode : request.tagsCode = m.tagsCode

/-- The message that was rebuilt is put where the first one was sent to, and is not redirected. -/
structure PutsBack (cfg : MessageStoreConfig) (m inner : MessageExtBrokerInner) : Prop where
  notDelayed : isDelayed inner = some false
  topic : inner.topic = m.topic
  queueId : inner.queueId = m.queueId
  tagsCode : inner.tagsCode = m.tagsCode
  returned : ∀ (env : Env) (log log' : Log) (put : Put) (result : AppendMessageResult),
    LogOK log → Appends cfg env inner log log' put result → ∃ record request,
      WroteMessage record log log' result ∧ put.dispatched = some request ∧
        Returned m record request

/-- **The detour is transparent**: wherever the first put appended its record, the message is found
there as long as the log keeps it, and can be put back. -/
def Transparent (cfg : MessageStoreConfig) (env : Env) (m : MessageExtBrokerInner) : Prop :=
  ∀ (log log₁ log₂ : Log) (put : Put) (result : AppendMessageResult) (offset : Int64)
    (order : EntryOrder), LogOK log → Appends cfg env m log log₁ put result →
    Kept log₁ log₂ → (∀ f ∈ log₂.mapedFileQueue.mapedFiles, f.available) →
    offset.toInt = result.wroteOffset →
    ∃ waiting inner, lookMessageByOffset log₂.mapedFileQueue offset = .ok (some waiting) ∧
      timeupInner order waiting = some inner ∧ PutsBack cfg m inner

lemma Delayed.isDelayed (h : Delayed m) : isDelayed m = some true := by
  obtain ⟨level, hlevel, hpos⟩ := h.level
  rw [CommitLog.isDelayed, if_pos h.tranType, hlevel, Option.map_some, decide_eq_true hpos]

/-- There is a log to which the message can be appended. -/
def Storable (cfg : MessageStoreConfig) (env : Env) (m : MessageExtBrokerInner) : Prop :=
  ∃ (log log' : Log) (put : Put) (result : AppendMessageResult) (offset : Int64), LogOK log ∧
    Appends cfg env m log log' put result ∧
    (∀ f ∈ log'.mapedFileQueue.mapedFiles, f.available) ∧ offset.toInt = result.wroteOffset

variable {topic value : Text} {tagsCode : Int64}

end CloudMQ.DelayDetour
