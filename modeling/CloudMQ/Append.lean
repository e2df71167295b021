import CloudMQ.CommitLog

/-!
What an append does, said once: `doAppend` writes the record of the message, or a blank record,
or nothing; `appendLast` puts those bytes behind the last record of the queue.
-/

namespace CloudMQ.Append

open CloudMQ.Buffer CloudMQ.Message CloudMQ.Record CloudMQ.Codec CloudMQ.Segment CloudMQ.Chain
open CloudMQ.CommitLog

section DoAppend

variable {maxMessageSize : ℕ} {memory : ℕ → UInt8} {fileFromOffset position remaining maxBlank : ℕ}
  {m : MessageExtBrokerInner} {c c' : Counters} {result : AppendMessageResult} {bs : Bytes}

/-- The record of the message was written. -/
structure WroteRecord (maxMessageSize maxBlank p : ℕ) (m : MessageExtBrokerInner)
    (c : Counters) (result : AppendMessageResult) (bs : Bytes) (c' : Counters) : Prop where
  status : result.status = .PUT_OK
  wroteOffset : result.wroteOffset = p
  wroteBytes : result.wroteBytes = recordSize m
  storeTimestamp : result.storeTimestamp = m.storeTimestamp
  logicsOffset : result.logicsOffset = recordQueueOffset m (c.touch m)
  size_le : recordSize m ≤ maxMessageSize
  fits : recordSize m + END_FILE_MIN_BLANK_LENGTH ≤ maxBlank
  counters : c' = (c.touch m).advance m
  bytes : ∃ bornHost storeHost, bornHost.length = 8 ∧ storeHost.length = 8 ∧
    bs = recordBytes m (Int32.ofNat (recordSize m)) bornHost storeHost result.logicsOffset p

/-- The file was filled up with a blank record. -/
structure WroteBlank (maxMessageSize maxBlank p : ℕ) (memory : ℕ → UInt8)
    (m : MessageExtBrokerInner) (c : Counters) (result : AppendMessageResult) (bs : Bytes)
    (c' : Counters) : Prop where
  status : result.status = .END_OF_FILE
  wroteOffset : result.wroteOffset = p
  wroteBytes : result.wroteBytes = maxBlank
  storeTimestamp : result.storeTimestamp = m.storeTimestamp
  counters : c' = c.touch m
  le : 8 ≤ maxBlank
  le_memory : maxBlank ≤ maxMessageSize + END_FILE_MIN_BLANK_LENGTH
  size_le : msgLen m ≤ maxMessageSize
  no_room : maxBlank < msgLen m + END_FILE_MIN_BLANK_LENGTH
  bytes : bs = blankBytes memory maxBlank
  storeHost : (SocketAddress2ByteBuffer m.storeHost).isSome

lemma msgLen_eq_of_le (h : (recordSize m : ℤ) ≤ msgLen m) : msgLen m = recordSize m := by
  unfold msgLen at *
  rw [BitVec.toInt_eq_toNat_cond] at *
  have := Nat.mod_le (recordSize m) (2 ^ 32)
  simp only [BitVec.toNat_ofNat] at *
  split at h <;> split <;> omega

lemma length_blankBytes (memory : ℕ → UInt8) (h : 8 ≤ maxBlank) :
    (blankBytes memory maxBlank).length = maxBlank := by
  simp only [blankBytes, List.length_append, length_putInt, List.length_map, List.length_range]
  omega

lemma ofInt_natCast (n : ℕ) : Int32.ofInt (n : ℤ) = Int32.ofNat n := by
  rw [Int32.ofInt_eq_ofNat]

lemma appendBlank_ok (h : appendBlank maxMessageSize memory remaining maxBlank = .ok bs) :
    8 ≤ maxBlank ∧ maxBlank ≤ maxMessageSize + END_FILE_MIN_BLANK_LENGTH ∧
      maxBlank ≤ remaining ∧ bs = blankBytes memory maxBlank := by
  unfold appendBlank at h
  split_ifs at h with h1 h2 h3
  exact ⟨by omega, by omega, by omega, (Except.ok.inj h).symm⟩

lemma appendRecord_ok {storeHost : Bytes} {qo : Int64} {p : ℕ} (hs : storeHost.length = 8)
    (h : appendRecord maxMessageSize remaining m storeHost qo p = .ok bs) :
    msgLen m = recordSize m ∧ recordSize m ≤ remaining ∧ ∃ bornHost, bornHost.length = 8 ∧
      bs = recordBytes m (Int32.ofNat (recordSize m)) bornHost storeHost qo p := by
  unfold appendRecord at h
  split at h
  · exact absurd h (by simp)
  · split at h
    · exact absurd h (by simp)
    · next bornHost hborn =>
      have hb := length_hostBytes hborn
      simp only [length_recordBytes hb hs] at h
      split_ifs at h with h1 h2
      have hlen := msgLen_eq_of_le (m := m) (by omega)
      refine ⟨hlen, by omega, bornHost, hb, ?_⟩
      rw [← Except.ok.inj h, hlen, ofInt_natCast]

/-- The three ways in which `doAppend` returns. -/
lemma doAppend_cases
    (h : doAppend maxMessageSize memory fileFromOffset position remaining maxBlank m c =
      (c', .ok (result, bs))) :
    WroteRecord maxMessageSize maxBlank (fileFromOffset + position) m c result bs c' ∨
    WroteBlank maxMessageSize maxBlank (fileFromOffset + position) memory m c result bs c' ∨
    result = .ofStatus .MESSAGE_SIZE_EXCEEDED ∧ bs = [] ∧ c' = c.touch m ∧
      maxMessageSize < msgLen m := by
  unfold doAppend at h
  split at h
  · exact absurd (congrArg Prod.snd h) (by simp)
  · next storeHost hstore =>
    simp only at h
    split at h
    · next hbig =>
      simp only [Prod.mk.injEq, Except.ok.injEq] at h
      exact .inr (.inr ⟨h.2.1.symm, h.2.2.symm, h.1.symm, hbig⟩)
    · next hbig =>
      split at h
      · next hroom =>
        cases hblank : appendBlank maxMessageSize memory remaining maxBlank with
        | error e => simp [hblank] at h
        | ok bs' =>
          obtain ⟨h1, h2, -, h3⟩ := appendBlank_ok hblank
          simp only [hblank, Prod.mk.injEq, Except.ok.injEq] at h
          obtain ⟨rfl, rfl, rfl⟩ := h
          exact .inr (.inl ⟨rfl, rfl, rfl, rfl, rfl, h1, h2, by omega, hroom, h3, by simp [hstore]⟩)
      · next hroom =>
        cases hrec : appendRecord maxMessageSize remaining m storeHost
            (recordQueueOffset m (c.touch m)) (fileFromOffset + position) with
        | error e => simp [hrec] at h
        | ok bs' =>
          obtain ⟨h1, -, bornHost, h2, h3⟩ := appendRecord_ok (length_hostBytes hstore) hrec
          simp only [hrec, Prod.mk.injEq, Except.ok.injEq] at h
          obtain ⟨rfl, rfl, rfl⟩ := h
          exact .inl ⟨rfl, rfl, by simp [h1], rfl, rfl, by omega, by omega, rfl,
            bornHost, storeHost, h2, length_hostBytes hstore, h3⟩

end DoAppend

/-! ### Appending through the last file -/

/-- Every file maps its whole length. -/
def Mapped (q : MapedFileQueue Bytes) : Prop :=
  ∀ f ∈ q.mapedFiles, f.mappedByteBuffer.length = q.mapedFileSize

/-- What every log keeps: a chain of completely mapped files. -/
structure LogOK (log : Log) : Prop where
  chained : Chained log.mapedFileQueue
  mapped : Mapped log.mapedFileQueue

lemma length_fresh {size : ℕ} (contents : Option (ℕ → UInt8)) :
    ∀ mem ∈ contents.map (mapMemory size), mem.length = size := by
  intro mem hmem
  obtain ⟨c, -, rfl⟩ := Option.map_eq_some_iff.mp hmem
  simp

/-- The file that is written to has room, and a new one is empty and follows a full one. -/
lemma getLastMapedFile_some {q q' : MapedFileQueue Bytes} {startOffset : ℕ}
    {fresh : Option Bytes} {f : MapedFile Bytes} (hc : Chained q) (hm : Mapped q)
    (hfresh : ∀ mem ∈ fresh, mem.length = q.mapedFileSize)
    (h : q.getLastMapedFile startOffset fresh = (some f, q')) :
    q'.mapedFiles.getLast? = some f ∧ q'.mapedFileSize = q.mapedFileSize ∧
      f.wrotePostion < q.mapedFileSize ∧ f.mappedByteBuffer.length = q.mapedFileSize ∧
      (q' = q ∨ q'.mapedFiles = q.mapedFiles ++ [f] ∧ f.wrotePostion = 0 ∧
        (∀ last ∈ q.mapedFiles.getLast?, last.wrotePostion = q.mapedFileSize)) := by
  obtain ⟨hlast, hsize, hlt, rfl | ⟨hmem, hfiles, hzero, -, -, -, hfull⟩⟩ :=
    getLastMapedFile_cases hc h
  · exact ⟨hlast, rfl, hlt, hm f (List.mem_of_getLast? hlast), .inl rfl⟩
  · exact ⟨hlast, hsize, hlt, hfresh _ hmem, .inr ⟨hfiles, hzero, hfull⟩⟩

/-- The file after `bs` was put behind its last record. -/
def grown (f : MapedFile Bytes) (result : AppendMessageResult) (bs : Bytes) : MapedFile Bytes :=
  { f with mappedByteBuffer := overwrite f.mappedByteBuffer f.wrotePostion bs
           wrotePostion := f.wrotePostion + result.wroteBytes
           storeTimestamp := result.storeTimestamp }

variable {cfg : MessageStoreConfig} {fresh : Option (ℕ → UInt8)} {memory : ℕ → UInt8}
  {m : MessageExtBrokerInner} {log log' : Log} {result : AppendMessageResult}

/-- An append that returns: which file it went to and what it wrote there. -/
structure AppendedTo (cfg : MessageStoreConfig) (memory : ℕ → UInt8)
    (fresh : Option (ℕ → UInt8)) (m : MessageExtBrokerInner) (log log' : Log)
    (result : AppendMessageResult) (f : MapedFile Bytes) (q : MapedFileQueue Bytes) (bs : Bytes) :
    Prop where
  got : log.mapedFileQueue.getLastMapedFile 0
    (fresh.map (mapMemory log.mapedFileQueue.mapedFileSize)) = (some f, q)
  last : q.mapedFiles.getLast? = some f
  size : q.mapedFileSize = log.mapedFileQueue.mapedFileSize
  lt : f.wrotePostion < log.mapedFileQueue.mapedFileSize
  length : f.mappedByteBuffer.length = log.mapedFileQueue.mapedFileSize
  new : q = log.mapedFileQueue ∨
    q.mapedFiles = log.mapedFileQueue.mapedFiles ++ [f] ∧ f.wrotePostion = 0 ∧
      ∀ last ∈ log.mapedFileQueue.mapedFiles.getLast?,
        last.wrotePostion = log.mapedFileQueue.mapedFileSize
  queue : log'.mapedFileQueue = q.setLast (grown f result bs)
  wrote :
    WroteRecord cfg.maxMessageSize (log.mapedFileQueue.mapedFileSize - f.wrotePostion)
      (f.fileFromOffset + f.wrotePostion) m log.counters result bs log'.counters ∨
    WroteBlank cfg.maxMessageSize (log.mapedFileQueue.mapedFileSize - f.wrotePostion)
      (f.fileFromOffset + f.wrotePostion) memory m log.counters result bs log'.counters ∨
    result = .ofStatus .MESSAGE_SIZE_EXCEEDED ∧ bs = [] ∧
      log'.counters = log.counters.touch m ∧ cfg.maxMessageSize < msgLen m

/-- The call of `doAppend` on the file. -/
def Called (cfg : MessageStoreConfig) (memory : ℕ → UInt8) (m : MessageExtBrokerInner)
    (log log' : Log) (result : AppendMessageResult) (f : MapedFile Bytes) (bs : Bytes) : Prop :=
  doAppend cfg.maxMessageSize memory f.fileFromOffset f.wrotePostion
    (f.mappedByteBuffer.length - f.wrotePostion)
    (log.mapedFileQueue.mapedFileSize - f.wrotePostion) m log.counters =
      (log'.counters, .ok (result, bs))

lemma appendLast_called (h : LogOK log)
    (ha : appendLast cfg fresh memory m log = (log', .done result)) :
    ∃ f q bs, AppendedTo cfg memory fresh m log log' result f q bs ∧
      Called cfg memory m log log' result f bs := by
  unfold appendLast at ha
  simp only at ha
  split at ha
  · exact absurd (congrArg Prod.snd ha) (by simp)
  · next f q hq =>
    obtain ⟨h1, h2, h3, h4, h5⟩ :=
      getLastMapedFile_some h.chained h.mapped (length_fresh fresh) hq
    unfold appendMessage at ha
    rw [if_pos h3] at ha
    split at ha
    · exact absurd (congrArg Prod.snd ha) (by simp)
    · next c result' f' hres =>
      split at hres
      · exact absurd (congrArg Prod.snd hres) (by simp)
      · next c₁ result₁ bs hdo =>
        simp only [Prod.mk.injEq, Except.ok.injEq] at hres ha
        obtain ⟨rfl, rfl, rfl⟩ := hres
        obtain ⟨rfl, ha⟩ := ha
        cases ha
        exact ⟨f, q, bs, ⟨hq, h1, h2, h3, h4, h5, rfl, doAppend_cases hdo⟩, hdo⟩

lemma appendLast_done (h : LogOK log)
    (ha : appendLast cfg fresh memory m log = (log', .done result)) :
    ∃ f q bs, AppendedTo cfg memory fresh m log log' result f q bs := by
  obtain ⟨f, q, bs, hap, -⟩ := appendLast_called h ha
  exact ⟨f, q, bs, hap⟩

section Grown

variable {f : MapedFile Bytes} {q : MapedFileQueue Bytes} {bs : Bytes}
  (h : AppendedTo cfg memory fresh m log log' result f q bs)

include h

lemma AppendedTo.length_eq : bs.length = result.wroteBytes := by
  rcases h.wrote with hw | hw | ⟨rfl, rfl, -⟩
  · obtain ⟨bh, sh, h1, h2, hbs⟩ := hw.bytes
    rw [hbs, length_recordBytes h1 h2, hw.wroteBytes]
  · rw [hw.bytes, length_blankBytes memory hw.le, hw.wroteBytes]
  · rfl

lemma AppendedTo.room :
    f.wrotePostion + result.wroteBytes ≤ log.mapedFileQueue.mapedFileSize := by
  have hlt := h.lt
  rcases h.wrote with hw | hw | ⟨rfl, -⟩
  · have := hw.fits
    have := hw.wroteBytes
    omega
  · have := hw.wroteBytes
    omega
  · exact hlt.le

lemma AppendedTo.chained_got (hlog : LogOK log) : Chained q := by
  have := hlog.chained.getLastMapedFile 0 (fresh.map (mapMemory log.mapedFileQueue.mapedFileSize))
  rwa [h.got] at this

lemma AppendedTo.mapped_got (hlog : LogOK log) : Mapped q := by
  rcases h.new with rfl | ⟨hq, -⟩
  · exact hlog.mapped
  · intro g hg
    rw [h.size]
    rw [hq] at hg
    rcases List.mem_append.mp hg with hg | hg
    · exact hlog.mapped g hg
    · rw [List.mem_singleton.mp hg]; exact h.length

lemma AppendedTo.length_grown :
    (grown f result bs).mappedByteBuffer.length = log.mapedFileQueue.mapedFileSize := by
  have := h.room
  rw [grown, length_overwrite (by rw [h.length_eq, h.length]; omega), h.length]

/-- An append keeps the log well formed. -/
lemma AppendedTo.logOK (hlog : LogOK log) : LogOK log' := by
  constructor
  · rw [h.queue]
    exact (h.chained_got hlog).setLast h.last rfl (by rw [h.size]; exact h.room)
  · rw [h.queue]
    exact forall_mem_setLast (h.mapped_got hlog) (h.length_grown.trans h.size.symm)

/-- The bytes stand in the file from where it ended before. -/
lemma AppendedTo.drop_grown :
    (grown f result bs).mappedByteBuffer.drop f.wrotePostion =
      bs ++ f.mappedByteBuffer.drop (f.wrotePostion + bs.length) := by
  rw [grown, drop_overwrite bs (by rw [h.length]; exact h.lt.le)]

end Grown

/-- A message that is stored was written by the first append, or by the second one into an
empty file. -/
lemma putLocked_called {env : Env} (h : LogOK log)
    (hp : putLocked cfg env m log = (log', .stored result)) :
    ∃ log₁ fresh memory f q bs, LogOK log₁ ∧
      log₁.mapedFileQueue.mapedFileSize = log.mapedFileQueue.mapedFileSize ∧
      AppendedTo cfg memory fresh m log₁ log' result f q bs ∧
      Called cfg memory m log₁ log' result f bs ∧
      (result.status = .PUT_OK ∨ result.status = .END_OF_FILE ∧ f.wrotePostion = 0) := by
  unfold putLocked at hp
  split at hp
  · exact absurd (congrArg Prod.snd hp) (by simp)
  · exact absurd (congrArg Prod.snd hp) (by simp)
  · next log₁ result₁ ha₁ =>
    obtain ⟨f₁, q₁, bs₁, hap₁, hcalled₁⟩ := appendLast_called h ha₁
    split at hp
    · next hs =>
      cases hp
      exact ⟨log, _, _, f₁, q₁, bs₁, h, rfl, hap₁, hcalled₁, .inl hs⟩
    · next hs =>
      have hok₁ := hap₁.logOK h
      have hsize : log₁.mapedFileQueue.mapedFileSize = log.mapedFileQueue.mapedFileSize := by
        rw [hap₁.queue]; exact hap₁.size
      split at hp
      · exact absurd (congrArg Prod.snd hp) (by simp)
      · exact absurd (congrArg Prod.snd hp) (by simp)
      · next log₂ result₂ ha₂ =>
        cases hp
        obtain ⟨f₂, q₂, bs₂, hap₂, hcalled₂⟩ := appendLast_called hok₁ ha₂
        refine ⟨log₁, _, _, f₂, q₂, bs₂, hok₁, hsize, hap₂, hcalled₂, ?_⟩
        -- the first append filled its file up, so the second one starts a new file
        have hblank : WroteBlank cfg.maxMessageSize
            (log.mapedFileQueue.mapedFileSize - f₁.wrotePostion)
            (f₁.fileFromOffset + f₁.wrotePostion) env.msgStoreItemMemory1 m log.counters result₁
            bs₁ log₁.counters := by
          rcases hap₁.wrote with hw | hw | ⟨rfl, -⟩
          · rw [hw.status] at hs; exact absurd hs (by simp)
          · exact hw
          · exact absurd hs (by simp [AppendMessageResult.ofStatus])
        have hfull : (grown f₁ result₁ bs₁).wrotePostion = log.mapedFileQueue.mapedFileSize := by
          have := hap₁.lt
          simp only [grown, hblank.wroteBytes]
          omega
        have hzero : f₂.wrotePostion = 0 := by
          rcases hap₂.new with hq | ⟨-, h0, -⟩
          · have hl := hap₂.last
            rw [hq, hap₁.queue] at hl
            have hl' : grown f₁ result₁ bs₁ = f₂ := by
              simpa [MapedFileQueue.setLast] using hl
            have hlt := hap₂.lt
            rw [← hl', hfull, hsize] at hlt
            exact absurd hlt (lt_irrefl _)
          · exact h0
        rcases hap₂.wrote with hw | hw | ⟨-, -, -, hbig⟩
        · exact .inl hw.status
        · exact .inr ⟨hw.status, hzero⟩
        · exact absurd hblank.size_le (by omega)
    · exact absurd (congrArg Prod.snd hp) (by simp)
    · exact absurd (congrArg Prod.snd hp) (by simp)

lemma putLocked_stored {env : Env} (h : LogOK log)
    (hp : putLocked cfg env m log = (log', .stored result)) :
    ∃ log₁ fresh memory f q bs, LogOK log₁ ∧
      log₁.mapedFileQueue.mapedFileSize = log.mapedFileQueue.mapedFileSize ∧
      AppendedTo cfg memory fresh m log₁ log' result f q bs ∧
      (result.status = .PUT_OK ∨ result.status = .END_OF_FILE ∧ f.wrotePostion = 0) := by
  obtain ⟨log₁, fresh, memory, f, q, bs, hok, hsize, hap, -, hstatus⟩ := putLocked_called h hp
  exact ⟨log₁, fresh, memory, f, q, bs, hok, hsize, hap, hstatus⟩

end CloudMQ.Append
