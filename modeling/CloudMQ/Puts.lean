import CloudMQ.Agreement
import CloudMQ.LogBytes

/-!
What one call of `putMessage` does to the commit log and to the counters, said once.

The log only grows. Either the record of the message was written behind the end of the log, and
the counter it took its queue offset from was advanced; or nothing but blank records was written,
and no counter was advanced.
-/

namespace CloudMQ.Puts

open CloudMQ.Buffer CloudMQ.Message CloudMQ.Record CloudMQ.Codec CloudMQ.Segment CloudMQ.Chain
open CloudMQ.CommitLog CloudMQ.Append CloudMQ.Agreement CloudMQ.LogBytes

/-- The bytes stand in the log from the given offset on. -/
def StandsAt (q : MapedFileQueue Bytes) (o : ℕ) (bs : Bytes) : Prop :=
  ∀ i b, bs[i]? = some b → byteAt q (o + i) = some b

lemma StandsAt.mono {q q' : MapedFileQueue Bytes} {o : ℕ} {bs : Bytes} (h : StandsAt q o bs)
    (hag : Agrees q q') : StandsAt q' o bs :=
  fun i b hb => hag _ _ (h i b hb)

/-- The log is as good as before, and it has grown. -/
structure Kept (log log' : Log) : Prop where
  ok : LogOK log'
  size_eq : log'.mapedFileQueue.mapedFileSize = log.mapedFileQueue.mapedFileSize
  agrees : Agrees log.mapedFileQueue log'.mapedFileQueue
  max_le : log.mapedFileQueue.getMaxOffset ≤ log'.mapedFileQueue.getMaxOffset

lemma Kept.refl {log : Log} (h : LogOK log) : Kept log log := ⟨h, rfl, fun _ _ h => h, le_rfl⟩

lemma Kept.trans {log₁ log₂ log₃ : Log} (h : Kept log₁ log₂) (h' : Kept log₂ log₃) :
    Kept log₁ log₃ :=
  ⟨h'.ok, h'.size_eq.trans h.size_eq, fun o b hb => h'.agrees o b (h.agrees o b hb),
    h.max_le.trans h'.max_le⟩

/-- The record of the message was written. -/
structure WroteMessage (m : MessageExtBrokerInner) (log log' : Log)
    (result : AppendMessageResult) : Prop where
  wroteBytes : result.wroteBytes = recordSize m
  size_lt : recordSize m < 2 ^ 31
  max_le : log.mapedFileQueue.getMaxOffset ≤ result.wroteOffset
  offset_le : result.wroteOffset ≤
    log.mapedFileQueue.getMaxOffset + log.mapedFileQueue.mapedFileSize
  end_eq : result.wroteOffset + result.wroteBytes = log'.mapedFileQueue.getMaxOffset
  logicsOffset : result.logicsOffset = recordQueueOffset m (log.counters.touch m)
  counters : log'.counters = (log.counters.touch m).advance m
  record : ∃ bornHost storeHost, bornHost.length = 8 ∧ storeHost.length = 8 ∧
    StandsAt log'.mapedFileQueue result.wroteOffset (recordBytes m (Int32.ofNat (recordSize m))
      bornHost storeHost result.logicsOffset result.wroteOffset) ∧
    ∃ rest, sliceAt log'.mapedFileQueue result.wroteOffset = recordBytes m
      (Int32.ofNat (recordSize m)) bornHost storeHost result.logicsOffset result.wroteOffset ++ rest

/-- No counter was advanced. -/
def Idle (m : MessageExtBrokerInner) (c c' : Counters) : Prop := c' = c ∨ c' = c.touch m

@[simp] lemma touch_touch (c : Counters) (m : MessageExtBrokerInner) :
    (c.touch m).touch m = c.touch m := by
  simp [Counters.touch]

lemma Idle.touch_eq {m : MessageExtBrokerInner} {c c' : Counters} (h : Idle m c c') :
    c'.touch m = c.touch m := by
  rcases h with rfl | rfl
  · rfl
  · exact touch_touch c m

section Append

variable {cfg : MessageStoreConfig} {fresh : Option (ℕ → UInt8)} {memory : ℕ → UInt8}
  {m : MessageExtBrokerInner} {log log' : Log} {result : AppendMessageResult}

lemma doAppend_error {maxMessageSize fileFromOffset position remaining maxBlank : ℕ}
    {c c' : Counters} {e : Thrown}
    (h : doAppend maxMessageSize memory fileFromOffset position remaining maxBlank m c =
      (c', .error e)) : Idle m c c' := by
  unfold doAppend at h
  split at h
  · exact .inl (congrArg Prod.fst h).symm
  · simp only at h
    split_ifs at h
    · exact absurd (congrArg Prod.snd h) (by simp)
    · split at h
      · exact .inr (congrArg Prod.fst h).symm
      · exact absurd (congrArg Prod.snd h) (by simp)
    · split at h
      · exact .inr (congrArg Prod.fst h).symm
      · exact absurd (congrArg Prod.snd h) (by simp)

/-- Looking for the last file keeps the log. -/
lemma kept_getLastMapedFile (hlog : LogOK log) {f : MapedFile Bytes} {q : MapedFileQueue Bytes}
    (hq : log.mapedFileQueue.getLastMapedFile 0
      (fresh.map (mapMemory log.mapedFileQueue.mapedFileSize)) = (some f, q)) (c : Counters) :
    Kept log ⟨q, c⟩ ∧ q.mapedFiles.getLast? = some f ∧
      q.getMaxOffset = log.mapedFileQueue.getMaxOffset := by
  obtain ⟨⟨hc, hm, hsize⟩, hlast, hmax, -, hbytes⟩ :=
    getLastMapedFile_opened hlog.chained hlog.mapped hq
  have hput : putAt log.mapedFileQueue 0 = log.mapedFileQueue.getMaxOffset := by
    by_cases hnil : log.mapedFileQueue.mapedFiles = []
    · rw [putAt_of_nil hnil, MapedFileQueue.getMaxOffset, hnil]
      rfl
    · exact putAt_of_ne_nil hnil
  exact ⟨⟨⟨hc, hm⟩, hsize, fun o b => (hbytes o b).mpr, hmax ▸ max_le_putAt 0⟩, hlast,
    hmax.trans hput⟩

/-- What was written to the last file stands behind the end of the log. -/
lemma kept_appendedTo (hlog : LogOK log) {f : MapedFile Bytes} {q : MapedFileQueue Bytes}
    {bs : Bytes} (h : AppendedTo cfg memory fresh m log log' result f q bs) :
    Kept log log' ∧ f.fileFromOffset + f.wrotePostion = log.mapedFileQueue.getMaxOffset ∧
      f.fileFromOffset + f.wrotePostion + bs.length = log'.mapedFileQueue.getMaxOffset ∧
      StandsAt log'.mapedFileQueue (f.fileFromOffset + f.wrotePostion) bs := by
  obtain ⟨⟨⟨hc, hm⟩, hsize, hag, -⟩, hlast, hmax⟩ :=
    kept_getLastMapedFile hlog h.got log.counters
  have hok' := h.logOK hlog
  have hmax' : q.getMaxOffset = f.fileFromOffset + f.wrotePostion := by
    rw [MapedFileQueue.getMaxOffset, hlast]
  have hlen := h.length_eq
  have hroom := h.room
  have hwritten : written (grown f result bs) = written f ++ bs := by
    have hle : f.wrotePostion ≤ f.mappedByteBuffer.length := by rw [h.length]; exact h.lt.le
    simp only [written, grown]
    rw [overwrite, List.append_assoc, List.take_append, List.take_of_length_le (by simp),
      List.length_take, Nat.min_eq_left hle, ← hlen, Nat.add_sub_cancel_left, List.take_left' rfl]
  have hfiles : log'.mapedFileQueue.mapedFiles = q.mapedFiles.dropLast ++ [grown f result bs] := by
    rw [h.queue]
    rfl
  have hbytes := byteAt_of_files hc hm hok'.chained hok'.mapped
    (List.dropLast_append_getLast? f hlast).symm hfiles rfl hwritten rfl
  have hend : log'.mapedFileQueue.getMaxOffset = f.fileFromOffset + f.wrotePostion + bs.length := by
    rw [h.queue, MapedFileQueue.getMaxOffset, MapedFileQueue.setLast, List.getLast?_concat, hlen]
    simp only [grown, Nat.add_assoc]
  refine ⟨⟨hok', by rw [h.queue]; exact hsize, fun o b hb => (hbytes o b).mpr (.inl (hag o b hb)),
    by omega⟩, hmax'.symm.trans hmax, hend.symm,
    fun i b hb => (hbytes _ b).mpr (.inr ⟨by omega, ?_⟩)⟩
  rwa [Nat.add_sub_cancel_left]

/-- **One append**, however it ends. -/
lemma appendLast_spec (hlog : LogOK log) {out : Appended}
    (ha : appendLast cfg fresh memory m log = (log', out)) :
    Kept log log' ∧ log'.mapedFileQueue.getMaxOffset ≤
        log.mapedFileQueue.getMaxOffset + log.mapedFileQueue.mapedFileSize ∧
      ((∃ result, out = .done result ∧ result.status = .PUT_OK ∧
        result.wroteOffset = log.mapedFileQueue.getMaxOffset ∧
        recordSize m + END_FILE_MIN_BLANK_LENGTH ≤ log.mapedFileQueue.mapedFileSize ∧
        WroteMessage m log log' result) ∨
      (∀ result, out = .done result → result.status ≠ .PUT_OK) ∧
        Idle m log.counters log'.counters) := by
  cases out with
  | done result =>
    obtain ⟨f, q, bs, hap⟩ := appendLast_done hlog ha
    obtain ⟨hkept, hmax, hend, hstands⟩ := kept_appendedTo hlog hap
    have hlen := hap.length_eq
    have hroom := hap.room
    refine ⟨hkept, by omega, ?_⟩
    rcases hap.wrote with hw | hw | ⟨rfl, -, hc, -⟩
    · obtain ⟨bh, sh, hb, hs, hbs⟩ := hw.bytes
      have hfits := hw.fits
      refine .inl ⟨result, rfl, hw.status, hw.wroteOffset.trans hmax, by omega, hw.wroteBytes,
        ?_, ?_, ?_, ?_, hw.logicsOffset, hw.counters, bh, sh, hb, hs, ?_, ?_⟩
      · have h1 := hw.size_le
        have h2 := cfg.maxMessageSize_lt
        omega
      · rw [hw.wroteOffset]
        exact hmax.ge
      · rw [hw.wroteOffset, hmax]
        exact Nat.le_add_right _ _
      · rw [hw.wroteOffset, ← hend, hlen]
      · rw [hw.wroteOffset, ← hbs]
        exact hstands
      · rw [hw.wroteOffset, ← hbs]
        exact ⟨_, sliceAt_appended hlog hap⟩
    · refine .inr ⟨fun r hr => ?_, .inr hw.counters⟩
      obtain rfl := Appended.done.inj hr
      rw [hw.status]
      simp
    · refine .inr ⟨fun r hr => ?_, .inr hc⟩
      obtain rfl := Appended.done.inj hr
      simp [AppendMessageResult.ofStatus]
  | noFile =>
    unfold appendLast at ha
    simp only at ha
    split at ha
    · next q hq =>
      simp only [Prod.mk.injEq, and_true] at ha
      obtain ⟨rfl, -⟩ := getLastMapedFile_none hq
      obtain rfl : log = log' := ha
      exact ⟨.refl hlog, Nat.le_add_right _ _, .inr ⟨by simp, .inl rfl⟩⟩
    · split at ha <;> simp at ha
  | thrown e =>
    unfold appendLast at ha
    simp only at ha
    split at ha
    · simp at ha
    · next f q hq =>
      split at ha
      · next c e' hap =>
        simp only [Prod.mk.injEq, Appended.thrown.injEq] at ha
        obtain ⟨rfl, -⟩ := ha
        obtain ⟨hkept, -, hmax⟩ := kept_getLastMapedFile hlog hq c
        refine ⟨hkept, hmax.trans_le (Nat.le_add_right _ _), .inr ⟨by simp, ?_⟩⟩
        unfold appendMessage at hap
        split at hap
        · split at hap
          · next hdo =>
            simp only [Prod.mk.injEq] at hap
            exact hap.1 ▸ doAppend_error hdo
          · exact absurd (congrArg Prod.snd hap) (by simp)
        · exact absurd (congrArg Prod.snd hap) (by simp)
      · simp at ha

lemma WroteMessage.of_idle {log₁ : Log} (h : WroteMessage m log₁ log' result)
    (hidle : Idle m log.counters log₁.counters)
    (hmax : log.mapedFileQueue.getMaxOffset ≤ log₁.mapedFileQueue.getMaxOffset)
    (hle : result.wroteOffset ≤
      log.mapedFileQueue.getMaxOffset + log.mapedFileQueue.mapedFileSize) :
    WroteMessage m log log' result where
  wroteBytes := h.wroteBytes
  size_lt := h.size_lt
  max_le := hmax.trans h.max_le
  offset_le := hle
  end_eq := h.end_eq
  logicsOffset := by rw [← hidle.touch_eq, h.logicsOffset]
  counters := by rw [← hidle.touch_eq, h.counters]
  record := h.record

lemma Idle.trans {c₁ c₂ c₃ : Counters} (h : Idle m c₁ c₂) (h' : Idle m c₂ c₃) : Idle m c₁ c₃ := by
  rcases h' with rfl | rfl
  · exact h
  · exact .inr h.touch_eq

/-- The locked part of a put: the record of the message is written when it fits a file at all. -/
lemma putLocked_spec {env : Env} (hlog : LogOK log) {out : Locked}
    (hp : putLocked cfg env m log = (log', out)) :
    Kept log log' ∧
      ((∃ result, out = .stored result ∧ result.status = .PUT_OK ∧
        recordSize m + END_FILE_MIN_BLANK_LENGTH ≤ log.mapedFileQueue.mapedFileSize ∧
        WroteMessage m log log' result) ∨
      (∀ result, out = .stored result →
        log.mapedFileQueue.mapedFileSize < recordSize m + END_FILE_MIN_BLANK_LENGTH ∧
          result.status = .END_OF_FILE) ∧ Idle m log.counters log'.counters) := by
  have hstored : ∀ result, out = .stored result → result.status = .PUT_OK ∨
      log.mapedFileQueue.mapedFileSize < recordSize m + END_FILE_MIN_BLANK_LENGTH ∧
        result.status = .END_OF_FILE := by
    rintro result rfl
    obtain ⟨log₁, fresh, memory, f, q, bs, -, hsize, hap, hok | ⟨hend, hzero⟩⟩ :=
      putLocked_stored hlog hp
    · exact .inl hok
    · refine .inr ⟨?_, hend⟩
      rcases hap.wrote with hw | hw | ⟨rfl, -⟩
      · rw [hw.status] at hend
        exact absurd hend (by simp)
      · have h1 := hw.no_room
        have h2 := msgLen_le m
        rw [hzero, hsize] at h1
        omega
      · simp [AppendMessageResult.ofStatus] at hend
  unfold putLocked at hp
  rcases ha : appendLast cfg env.mapedFile1 env.msgStoreItemMemory1 m log with ⟨log₁, out₁⟩
  obtain ⟨hkept, hle, hwrote | ⟨hnot, hidle⟩⟩ := appendLast_spec hlog ha
  · obtain ⟨result, rfl, hs, -, hroom, hw⟩ := hwrote
    rw [ha] at hp
    simp only [hs, Prod.mk.injEq] at hp
    obtain ⟨rfl, rfl⟩ := hp
    exact ⟨hkept, .inl ⟨result, rfl, hs, hroom, hw⟩⟩
  · cases out₁ with
    | noFile =>
      simp only [ha, Prod.mk.injEq] at hp
      obtain ⟨rfl, rfl⟩ := hp
      exact ⟨hkept, .inr ⟨by simp, hidle⟩⟩
    | thrown e =>
      simp only [ha, Prod.mk.injEq] at hp
      obtain ⟨rfl, rfl⟩ := hp
      exact ⟨hkept, .inr ⟨by simp, hidle⟩⟩
    | done result =>
      rw [ha] at hp
      cases hs : result.status with
      | PUT_OK => exact absurd hs (hnot result rfl)
      | MESSAGE_SIZE_EXCEEDED =>
        simp only [hs, Prod.mk.injEq] at hp
        obtain ⟨rfl, rfl⟩ := hp
        exact ⟨hkept, .inr ⟨by simp, hidle⟩⟩
      | UNKNOWN_ERROR =>
        simp only [hs, Prod.mk.injEq] at hp
        obtain ⟨rfl, rfl⟩ := hp
        exact ⟨hkept, .inr ⟨by simp, hidle⟩⟩
      | END_OF_FILE =>
        simp only [hs] at hp
        rcases ha₂ : appendLast cfg env.mapedFile2 env.msgStoreItemMemory2 m log₁ with
          ⟨log₂, out₂⟩
        obtain ⟨hkept₂, -, hwrote | ⟨hnot₂, hidle₂⟩⟩ := appendLast_spec hkept.ok ha₂
        · obtain ⟨result₂, rfl, hs₂, hoff, hroom, hw⟩ := hwrote
          simp only [ha₂, Prod.mk.injEq] at hp
          obtain ⟨rfl, rfl⟩ := hp
          exact ⟨hkept.trans hkept₂, .inl ⟨result₂, rfl, hs₂, hkept.size_eq ▸ hroom,
            hw.of_idle hidle hkept.max_le (hoff.trans_le hle)⟩⟩
        · have hlog' : log' = log₂ := by
            cases out₂ <;> simp only [ha₂, Prod.mk.injEq] at hp <;> exact hp.1.symm
          subst hlog'
          refine ⟨hkept.trans hkept₂, .inr ⟨fun result' hout => ?_, hidle.trans hidle₂⟩⟩
          rcases hstored result' hout with hok | hend
          · rw [ha₂, hout] at hp
            cases out₂ with
            | noFile => simp at hp
            | thrown e => simp at hp
            | done result₂ =>
              simp only [Prod.mk.injEq, true_and, Locked.stored.injEq] at hp
              exact absurd (hp ▸ hok) (hnot₂ result₂ rfl)
          · exact hend

end Append

/-! ### The whole call -/

section Put

variable {cfg : MessageStoreConfig} {env : Env} {m : MessageExtBrokerInner} {s s' : Store}
  {r : Except Thrown Put}

/-- The three things a call can come to. In the last case the store reports a message that it did
not write: its record does not fit a file. -/
inductive Outcome (cfg : MessageStoreConfig) (env : Env) (m : MessageExtBrokerInner)
    (log log' : Log) (r : Except Thrown Put) : Prop
  | wrote (m' : MessageExtBrokerInner) (tagsCode : Int64) (result : AppendMessageResult)
      (put : Put) (prepared : prepare cfg env m = some (m', tagsCode)) (returned : r = .ok put)
      (appended : put.result.appendMessageResult = some result)
      (dispatched : put.dispatched = some (dispatchRequest (stamp env m') tagsCode result))
      (room : recordSize (stamp env m') + END_FILE_MIN_BLANK_LENGTH ≤
        log.mapedFileQueue.mapedFileSize)
      (wrote : WroteMessage (stamp env m') log log' result)
  | failed (m' : MessageExtBrokerInner) (idle : Idle m' log.counters log'.counters)
      (dispatched : ∀ put, r = .ok put → put.dispatched = none)
  | blank (m' : MessageExtBrokerInner) (tagsCode : Int64) (result : AppendMessageResult)
      (put : Put) (prepared : prepare cfg env m = some (m', tagsCode)) (returned : r = .ok put)
      (appended : put.result.appendMessageResult = some result)
      (dispatched : put.dispatched = some (dispatchRequest (stamp env m') tagsCode result))
      (room : log.mapedFileQueue.mapedFileSize <
        recordSize (stamp env m') + END_FILE_MIN_BLANK_LENGTH)
      (idle : Idle (stamp env m') log.counters log'.counters)

lemma putMessage_outcome {log log' : Log} (hlog : LogOK log)
    (hp : putMessage cfg env m log = (log', r)) :
    Kept log log' ∧ Outcome cfg env m log log' r := by
  unfold putMessage at hp
  split at hp
  · simp only [Prod.mk.injEq] at hp
    obtain ⟨rfl, rfl⟩ := hp
    exact ⟨.refl hlog, .failed m (.inl rfl) (by simp)⟩
  · next m' tagsCode hprep =>
    simp only at hp
    rcases hl : putLocked cfg env (stamp env m') log with ⟨log₁, out⟩
    obtain ⟨hkept, hcases⟩ := putLocked_spec hlog hl
    rw [hl] at hp
    cases out with
    | thrown e =>
      simp only [Prod.mk.injEq] at hp
      obtain ⟨rfl, rfl⟩ := hp
      obtain ⟨_, h, -⟩ | ⟨-, hidle⟩ := hcases
      · exact absurd h (by simp)
      · exact ⟨hkept, .failed _ hidle (by simp)⟩
    | failed status result =>
      simp only [Prod.mk.injEq] at hp
      obtain ⟨rfl, rfl⟩ := hp
      obtain ⟨_, h, -⟩ | ⟨-, hidle⟩ := hcases
      · exact absurd h (by simp)
      · refine ⟨hkept, .failed _ hidle fun put hput => ?_⟩
        rw [← Except.ok.inj hput]
    | stored result =>
      simp only [Prod.mk.injEq] at hp
      obtain ⟨rfl, rfl⟩ := hp
      obtain ⟨result', h, -, hroom, hw⟩ | ⟨hblank, hidle⟩ := hcases
      · obtain rfl := Locked.stored.inj h
        exact ⟨hkept, .wrote m' tagsCode result _ hprep rfl rfl rfl hroom hw⟩
      · exact ⟨hkept, .blank m' tagsCode result _ hprep rfl rfl rfl (hblank result rfl).1 hidle⟩

/-- **One call of `DefaultMessageStore.putMessage`.** -/
lemma storePut_outcome (hlog : LogOK s.commitLog) (hp : s.putMessage cfg env m = (s', r)) :
    Kept s.commitLog s'.commitLog ∧ Outcome cfg env m s.commitLog s'.commitLog r ∧
      s'.writeable = s.writeable := by
  unfold Store.putMessage at hp
  split at hp
  · simp only [Prod.mk.injEq] at hp
    obtain ⟨rfl, rfl⟩ := hp
    exact ⟨.refl hlog, .failed m (.inl rfl) fun put hput => by rw [← Except.ok.inj hput], rfl⟩
  · split at hp
    · simp only [Prod.mk.injEq] at hp
      obtain ⟨rfl, rfl⟩ := hp
      exact ⟨.refl hlog, .failed m (.inl rfl) fun put hput => by rw [← Except.ok.inj hput], rfl⟩
    · simp only [Prod.mk.injEq] at hp
      obtain ⟨rfl, rfl⟩ := hp
      obtain ⟨h1, h2⟩ := putMessage_outcome hlog
        (show putMessage cfg env m s.commitLog = (_, (putMessage cfg env m s.commitLog).2) from rfl)
      exact ⟨h1, h2, rfl⟩

end Put

end CloudMQ.Puts
