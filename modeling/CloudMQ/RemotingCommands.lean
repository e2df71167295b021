import CloudMQ.CustomHeader
import CloudMQ.Framing
import CloudMQ.PagecacheTransfer

/-!
Commands on the wire: `RemotingCommand.encode`, `encodeHeader` and `decode`, behind `NettyEncoder`
and `NettyDecoder`.

A frame is a length, the length of the header, the header as JSON and the body. The encoder writes
header and body one after the other; an answer to a pull request has its header written in front of
messages that come from the page cache. The receiver takes frames out of a stream that arrives in
pieces of any size.
-/

namespace CloudMQ.RemotingCommands

open CloudMQ.Buffer CloudMQ.Utf8 CloudMQ.Message CloudMQ.Framing
open CloudMQ.CustomHeader (HeaderClass Instance)
open CloudMQ.PagecacheTransfer

/-! ### Commands -/

inductive LanguageCode
  | JAVA
  | CPP
  | DOTNET
  | PYTHON
  | DELPHI
  | ERLANG
  | RUBY
  | OTHER
  | HTTP
deriving DecidableEq

/-- `none` is `null`. -/
structure RemotingCommand where
  code : Int32
  language : LanguageCode := .JAVA
  version : Int32 := 0
  opaqueId : Int32
  flag : Int32 := 0
  remark : Option Text := none
  extFields : Option Props := none
  /-- not written, but its fields are put into `extFields` -/
  customHeader : Option (Σ C : HeaderClass, Instance C.fields) := none
  body : Option Bytes := none

/-- The JSON library, on commands. -/
structure Json where
  toJSONString : RemotingCommand → Text
  parseObject : Text → Option RemotingCommand

/-- A command is read back from what is written of it, without its transient fields. -/
def Json.ReadsBack (json : Json) (cmd : RemotingCommand) : Prop :=
  json.parseObject (json.toJSONString cmd) = some { cmd with customHeader := none, body := none }

namespace RemotingCommand

def makeCustomHeaderToNet (cmd : RemotingCommand) : RemotingCommand :=
  match cmd.customHeader with
  | none => cmd
  | some ⟨C, header⟩ =>
    { cmd with
      extFields := (CustomHeader.makeCustomHeaderToNet
        (⟨some header, cmd.extFields⟩ : CustomHeader.RemotingCommand C)).extFields }

def decodeCommandCustomHeader (cmd : RemotingCommand) (C : HeaderClass) :
    Except CustomHeader.Thrown (Option (Instance C.fields)) :=
  CustomHeader.decodeCommandCustomHeader ⟨none, cmd.extFields⟩

variable (json : Json) (cmd : RemotingCommand)

def buildHeader : Bytes := utf8Encode (json.toJSONString cmd.makeCustomHeaderToNet)

def bodyData : Bytes := cmd.body.getD []

end RemotingCommand

/-! ### Writing -/

/-- A buffer of that capacity with these bytes put into it, flipped. There is an exception if the
capacity is negative, or too small. -/
def filled (capacity : Int32) (bytes : Bytes) : Option ByteBuffer :=
  if h : (bytes.length : ℤ) ≤ capacity.toInt then
    some ⟨bytes, 0, Nat.zero_le _, by have := capacity.toInt_lt; omega⟩
  else none

namespace RemotingCommand

variable (json : Json) (cmd : RemotingCommand)

def encode : Option ByteBuffer :=
  let headerData := cmd.buildHeader json
  let length := 4 + Int32.ofNat headerData.length + Int32.ofNat cmd.bodyData.length
  filled (4 + length)
    (putInt length ++ putInt (Int32.ofNat headerData.length) ++ headerData ++ cmd.bodyData)

/-- `encodeHeader(bodyLength)`: the body is written by somebody else. -/
def encodeHeader (bodyLength : Int32) : Option ByteBuffer :=
  let headerData := cmd.buildHeader json
  let length := 4 + Int32.ofNat headerData.length + bodyLength
  filled (4 + length - bodyLength)
    (putInt length ++ putInt (Int32.ofNat headerData.length) ++ headerData)

/-- `none` is an exception. -/
def decode (array : Bytes) : Option RemotingCommand := do
  let (headerLength, rest) ← getInt.run array
  if headerLength.toInt < 0 then none
  else do
    let (headerData, bodyData) ← (getBytes headerLength.toInt.toNat).run rest
    let cmd ← json.parseObject (utf8Decode headerData)
    return { cmd with body := if bodyData = [] then none else some bodyData }

end RemotingCommand

/-- `NettyEncoder.encode`: what is written to the channel. -/
def NettyEncoder.encode (json : Json) (remotingCommand : RemotingCommand) : Option Bytes := do
  let header ← remotingCommand.encodeHeader json
    ((remotingCommand.body.map fun body => Int32.ofNat body.length).getD 0)
  return header.remaining ++ remotingCommand.bodyData

/-- The ways in which commands are written. -/
inductive Write
  | encode (cmd : RemotingCommand)
  | netty (cmd : RemotingCommand)
  /-- the messages are transferred in calls that write at most so many bytes -/
  | pagecache (response : RemotingCommand) (messages : List SelectMapedBufferResult)
      (takes : List ℕ)

namespace Write

variable (json : Json)

def cmd : Write → RemotingCommand
  | .encode cmd | .netty cmd | .pagecache cmd _ _ => cmd

def body : Write → Bytes
  | .encode cmd | .netty cmd => cmd.bodyData
  | .pagecache _ messages _ => messages.flatMap (·.byteBuffer.content)

/-- The header that is written in front of messages. -/
def pagecacheHeader (response : RemotingCommand) (messages : List SelectMapedBufferResult) :
    Option ByteBuffer :=
  response.encodeHeader json (addMessages messages).bufferTotalSize

/-- What comes to the channel. -/
def bytes : Write → Option Bytes
  | .encode cmd => (cmd.encode json).map ByteBuffer.remaining
  | .netty cmd => NettyEncoder.encode json cmd
  | .pagecache response messages takes =>
    (pagecacheHeader json response messages).map fun header => (answer header messages).sent takes

/-- The transfer from the page cache has come to its end. -/
def Complete : Write → Prop
  | .encode _ | .netty _ => True
  | .pagecache response messages takes =>
    ∀ header ∈ pagecacheHeader json response messages,
      ((answer header messages).after takes).remaining = []

/-- With the two lengths. -/
def frameLength (w : Write) : ℕ := 8 + (w.cmd.buildHeader json).length + w.body.length

/-- The command as it is to be received. -/
def received (w : Write) : RemotingCommand :=
  { w.cmd.makeCustomHeaderToNet with
    customHeader := none
    body := if w.body = [] then none else some w.body }

end Write

/-! ### Reading -/

/-- `LengthFieldBasedFrameDecoder`, with a length field of four bytes that is taken away, on the
pieces that come from a channel. -/
structure FrameDecoder where
  State : Type
  new : State
  /-- the frames that a piece completes -/
  channelRead : State → Bytes → State × List Bytes

namespace FrameDecoder

variable (d : FrameDecoder)

def frames : d.State → List Bytes → List Bytes
  | _, [] => []
  | s, chunk :: chunks => (d.channelRead s chunk).2 ++ frames (d.channelRead s chunk).1 chunks

/-- Frames that are not too long are split by the values of their length fields. -/
def Splits (maxFrameLength : ℕ) : Prop :=
  ∀ payloads chunks : List Bytes, (∀ p ∈ payloads, 4 + p.length ≤ maxFrameLength) →
    chunks.flatten = payloads.flatMap (fun p => putInt (Int32.ofNat p.length) ++ p) →
    d.frames d.new chunks = payloads

end FrameDecoder

def FRAME_MAX_LENGTH : ℕ := 8388608

/-- `NettyDecoder`; `none` is a frame for which the channel is closed. -/
def NettyDecoder.commands (json : Json) (d : FrameDecoder) (chunks : List Bytes) :
    List (Option RemotingCommand) :=
  (d.frames d.new chunks).map (RemotingCommand.decode json)

/-! ### Frames -/

/-- What stands behind the length of a frame. -/
def payload (headerData bodyData : Bytes) : Bytes :=
  putInt (Int32.ofNat headerData.length) ++ headerData ++ bodyData

def frame (payload : Bytes) : Bytes := putInt (Int32.ofNat payload.length) ++ payload

lemma length_payload (headerData bodyData : Bytes) :
    (payload headerData bodyData).length = 4 + headerData.length + bodyData.length := by
  simp [payload, putInt, bigEndian]
  omega

lemma filled_eq {capacity : Int32} {bytes : Bytes} (h : (bytes.length : ℤ) ≤ capacity.toInt) :
    ∃ buffer, filled capacity bytes = some buffer ∧ buffer.content = bytes ∧
      buffer.position = 0 := by
  rw [filled, dif_pos h]
  exact ⟨_, rfl, rfl, rfl⟩

variable {json : Json} {cmd : RemotingCommand} {w : Write}

/-- The header announces a body of so many bytes. -/
lemma encodeHeader_eq {n : ℕ} (h : 8 + (cmd.buildHeader json).length + n < 2 ^ 31) :
    ∃ header, cmd.encodeHeader json (Int32.ofNat n) = some header ∧ header.position = 0 ∧
      header.content = putInt (Int32.ofNat (4 + (cmd.buildHeader json).length + n)) ++
        putInt (Int32.ofNat (cmd.buildHeader json).length) ++ cmd.buildHeader json := by
  have hlength : 4 + Int32.ofNat (cmd.buildHeader json).length + Int32.ofNat n =
      Int32.ofNat (4 + (cmd.buildHeader json).length + n) := by
    rw [Int32.ofNat_add, Int32.ofNat_add]
    rfl
  have hcapacity : 4 + Int32.ofNat (4 + (cmd.buildHeader json).length + n) - Int32.ofNat n =
      Int32.ofNat (8 + (cmd.buildHeader json).length) := by
    rw [← hlength, ← Int32.add_assoc, Int32.add_sub_cancel, ← Int32.add_assoc, Int32.ofNat_add]
    rfl
  have hle : ((putInt (Int32.ofNat (4 + (cmd.buildHeader json).length + n)) ++
      putInt (Int32.ofNat (cmd.buildHeader json).length) ++ cmd.buildHeader json).length : ℤ) ≤
        (Int32.ofNat (8 + (cmd.buildHeader json).length)).toInt := by
    rw [Int32.toInt_ofNat_of_lt (by omega)]
    simp [putInt, bigEndian]
    omega
  obtain ⟨header, hheader, hcontent, hposition⟩ := filled_eq hle
  refine ⟨header, ?_, hposition, hcontent⟩
  rw [RemotingCommand.encodeHeader]
  simp only [hlength, hcapacity]
  exact hheader

lemma encode_eq (h : 8 + (cmd.buildHeader json).length + cmd.bodyData.length < 2 ^ 31) :
    (cmd.encode json).map ByteBuffer.remaining =
      some (frame (payload (cmd.buildHeader json) cmd.bodyData)) := by
  have hlength : 4 + Int32.ofNat (cmd.buildHeader json).length +
      Int32.ofNat cmd.bodyData.length =
        Int32.ofNat (payload (cmd.buildHeader json) cmd.bodyData).length := by
    rw [length_payload, Int32.ofNat_add, Int32.ofNat_add]
    rfl
  have hle : ((frame (payload (cmd.buildHeader json) cmd.bodyData)).length : ℤ) ≤
      (4 + Int32.ofNat (payload (cmd.buildHeader json) cmd.bodyData).length).toInt := by
    have heq : 4 + Int32.ofNat (payload (cmd.buildHeader json) cmd.bodyData).length =
        Int32.ofNat (4 + (payload (cmd.buildHeader json) cmd.bodyData).length) :=
      (Int32.ofNat_add _ _).symm
    rw [heq, Int32.toInt_ofNat_of_lt (by rw [length_payload]; omega), frame, List.length_append]
    simp [putInt, bigEndian]
  obtain ⟨buffer, hbuffer, hcontent, hposition⟩ := filled_eq hle
  have hencode : cmd.encode json = some buffer := by
    rw [← hbuffer, RemotingCommand.encode]
    simp only [hlength, frame, payload, List.append_assoc]
  rw [hencode, Option.map_some, ByteBuffer.remaining, hposition, List.drop_zero, hcontent]

lemma frame_of_header {headerData bodyData : Bytes} :
    putInt (Int32.ofNat (4 + headerData.length + bodyData.length)) ++
        putInt (Int32.ofNat headerData.length) ++ headerData ++ bodyData =
      frame (payload headerData bodyData) := by
  rw [frame, length_payload, payload]
  simp only [List.append_assoc]

lemma nettyEncode_eq (h : 8 + (cmd.buildHeader json).length + cmd.bodyData.length < 2 ^ 31) :
    NettyEncoder.encode json cmd =
      some (frame (payload (cmd.buildHeader json) cmd.bodyData)) := by
  have hlength : (cmd.body.map fun body => Int32.ofNat body.length).getD 0 =
      Int32.ofNat cmd.bodyData.length := by
    rw [RemotingCommand.bodyData]
    cases cmd.body <;> rfl
  obtain ⟨header, hheader, hposition, hcontent⟩ := encodeHeader_eq h
  rw [NettyEncoder.encode, hlength, hheader, Option.bind_eq_bind, Option.bind_some,
    ByteBuffer.remaining, hposition, List.drop_zero, hcontent, frame_of_header]
  rfl

/-- The sizes of the messages are summed up to the length of the body. -/
lemma bufferTotalSize_eq (messages : List SelectMapedBufferResult) :
    (addMessages messages).bufferTotalSize =
      Int32.ofNat (messages.flatMap (·.byteBuffer.content)).length := by
  rw [addMessages, bufferTotalSize_foldl]
  exact Int32.zero_add _

lemma pagecache_eq {messages : List SelectMapedBufferResult} {takes : List ℕ}
    (h : 8 + (cmd.buildHeader json).length +
      (messages.flatMap (·.byteBuffer.content)).length < 2 ^ 31)
    (hcomplete : (Write.pagecache cmd messages takes).Complete json) :
    (Write.pagecache cmd messages takes).bytes json =
      some (frame (payload (cmd.buildHeader json) (messages.flatMap (·.byteBuffer.content)))) := by
  obtain ⟨header, hheader, hposition, hcontent⟩ := encodeHeader_eq h
  rw [← bufferTotalSize_eq] at hheader
  have hsent := ManyMessageTransfer.sent_append_remaining (answer header messages) takes
  rw [hcomplete header hheader, List.append_nil, remaining_answer, everything,
    ByteBuffer.remaining, hposition, List.drop_zero, hcontent, frame_of_header] at hsent
  rw [Write.bytes, Write.pagecacheHeader, hheader, Option.map_some, hsent]

/-- **One frame**, in whatever way the command is written. -/
lemma bytes_eq (h : w.frameLength json < 2 ^ 31) (hcomplete : w.Complete json) :
    w.bytes json = some (frame (payload (w.cmd.buildHeader json) w.body)) := by
  cases w with
  | encode cmd => exact encode_eq h
  | netty cmd => exact nettyEncode_eq h
  | pagecache response messages takes => exact pagecache_eq h hcomplete

/-- What is accepted is a header of the length that is announced, and a body. -/
lemma decode_iff {array : Bytes} :
    RemotingCommand.decode json array = some cmd ↔ ∃ headerData bodyData parsed,
      array = payload headerData bodyData ∧ headerData.length < 2 ^ 31 ∧
      json.parseObject (utf8Decode headerData) = some parsed ∧
      cmd = { parsed with body := if bodyData = [] then none else some bodyData } := by
  constructor
  · intro h
    simp only [RemotingCommand.decode, Option.bind_eq_bind, Option.bind_eq_some_iff,
      Prod.exists] at h
    obtain ⟨headerLength, rest, hlen, h⟩ := h
    split at h
    · exact absurd h (by simp)
    next hnonneg =>
    simp only [Option.bind_eq_some_iff, Prod.exists, Option.pure_def, Option.some.injEq] at h
    obtain ⟨headerData, bodyData, hheader, parsed, hparsed, rfl⟩ := h
    obtain ⟨rfl, hlength⟩ := getBytes_eq_some hheader
    have hlt := headerLength.toInt_lt
    have hof : Int32.ofNat headerData.length = headerLength := by
      rw [← Int32.toInt_inj, Int32.toInt_ofNat_of_lt (by omega)]
      omega
    refine ⟨headerData, bodyData, parsed, ?_, by omega, hparsed, rfl⟩
    rw [getInt_eq_some hlen, payload, hof, List.append_assoc]
  · rintro ⟨headerData, bodyData, parsed, rfl, hlt, hparsed, rfl⟩
    have hlen := Int32.toInt_ofNat_of_lt hlt
    have hlength : (Int32.ofNat headerData.length).toInt.toNat = headerData.length := by omega
    rw [RemotingCommand.decode, payload, List.append_assoc, getInt_putInt, Option.bind_eq_bind,
      Option.bind_some]
    simp only [hlength, getBytes_append rfl bodyData]
    rw [if_neg (by omega)]
    simp [hparsed]

/-- A frame is read as the command that was written. -/
lemma decode_bytes (h : w.frameLength json < 2 ^ 31)
    (hjson : json.ReadsBack w.cmd.makeCustomHeaderToNet) :
    RemotingCommand.decode json (payload (w.cmd.buildHeader json) w.body) = some w.received := by
  refine decode_iff.mpr ⟨_, _, { w.cmd.makeCustomHeaderToNet with
    customHeader := none, body := none }, rfl, ?_, ?_, rfl⟩
  · unfold Write.frameLength at h
    omega
  · rw [RemotingCommand.buildHeader, utf8Decode_encode, hjson]

/-! ### The stream -/

lemma mapM_bytes {ws : List Write} (hfits : ∀ w ∈ ws, w.frameLength json < 2 ^ 31)
    (hcomplete : ∀ w ∈ ws, w.Complete json) :
    ws.mapM (Write.bytes json) =
      some (ws.map fun w => frame (payload (w.cmd.buildHeader json) w.body)) := by
  induction ws with
  | nil => rfl
  | cons w ws ih =>
    have hw := bytes_eq (hfits w List.mem_cons_self) (hcomplete w List.mem_cons_self)
    have hws := ih (fun w' h' => hfits w' (List.mem_cons_of_mem w h'))
      fun w' h' => hcomplete w' (List.mem_cons_of_mem w h')
    rw [List.mapM_cons, hw, hws]
    rfl

/-- A custom header that can be read back is found in the command that is received. -/
lemma decodeCommandCustomHeader_received {C : HeaderClass} {header : Instance C.fields}
    (hheader : w.cmd.customHeader = some ⟨C, header⟩) (hnone : w.cmd.extFields = none)
    (hback : CustomHeader.ReadsBack header) :
    w.received.decodeCommandCustomHeader C = .ok (some header) := by
  have hext : w.received.extFields =
      (CustomHeader.makeCustomHeaderToNet (CustomHeader.createRequestCommand header)).extFields := by
    rw [Write.received, RemotingCommand.makeCustomHeaderToNet, hheader, hnone]
    rfl
  rw [RemotingCommand.decodeCommandCustomHeader, hext]
  exact hback

/-- **Transmission.** Commands are written by the encoder, as a whole or with messages from the page
cache behind their headers, and no frame is too long. However the stream is cut into pieces, the
receiver decodes these commands, with their bodies and their custom headers, in their order and
nothing else. -/
theorem transmits {d : FrameDecoder} (hd : d.Splits FRAME_MAX_LENGTH) {ws : List Write}
    (hjson : ∀ w ∈ ws, json.ReadsBack w.cmd.makeCustomHeaderToNet)
    (hcomplete : ∀ w ∈ ws, w.Complete json)
    (hfits : ∀ w ∈ ws, w.frameLength json ≤ FRAME_MAX_LENGTH) :
    (∃ bs, ws.mapM (Write.bytes json) = some bs ∧ ∀ chunks : List Bytes,
      chunks.flatten = bs.flatten →
        NettyDecoder.commands json d chunks = ws.map fun w => some w.received) ∧
    ∀ w ∈ ws, ∀ C header, w.cmd.customHeader = some ⟨C, header⟩ → w.cmd.extFields = none →
      CustomHeader.ReadsBack header →
        w.received.decodeCommandCustomHeader C = .ok (some header) := by
  have hlt : ∀ w ∈ ws, w.frameLength json < 2 ^ 31 := fun w hw =>
    (hfits w hw).trans_lt (by decide)
  refine ⟨⟨_, mapM_bytes hlt hcomplete, fun chunks hchunks => ?_⟩,
    fun w _ C header hheader hnone hback =>
      decodeCommandCustomHeader_received hheader hnone hback⟩
  have hsplit : d.frames d.new chunks =
      ws.map fun w => payload (w.cmd.buildHeader json) w.body := by
    refine hd _ chunks (fun p hp => ?_) ?_
    · obtain ⟨w, hw, rfl⟩ := List.mem_map.mp hp
      have hfit := hfits w hw
      rw [length_payload]
      unfold Write.frameLength at hfit
      omega
    · rw [hchunks, List.flatMap_map]
      rfl
  rw [NettyDecoder.commands, hsplit, List.map_map]
  exact List.map_congr_left fun w hw => decode_bytes (hlt w hw) (hjson w hw)

/-! ### A decoder, and three commands -/

/-- A length and so many bytes. -/
def takeFrame (s : Bytes) : Option (Bytes × Bytes) := do
  let (length, rest) ← getInt.run s
  if length.toInt < 0 then none else (getBytes length.toInt.toNat).run rest

lemma takeFrame_eq_some {s p rest : Bytes} (h : takeFrame s = some (p, rest)) :
    p.length < 2 ^ 31 ∧ s = frame p ++ rest := by
  simp only [takeFrame, Option.bind_eq_bind, Option.bind_eq_some_iff, Prod.exists] at h
  obtain ⟨length, rest', hlen, h⟩ := h
  split at h
  · exact absurd h (by simp)
  next hnonneg =>
  obtain ⟨rfl, hlength⟩ := getBytes_eq_some h
  have hlt := length.toInt_lt
  have hof : Int32.ofNat p.length = length := by
    rw [← Int32.toInt_inj, Int32.toInt_ofNat_of_lt (by omega)]
    omega
  refine ⟨by omega, ?_⟩
  rw [getInt_eq_some hlen, frame, hof, List.append_assoc]

lemma takeFrame_frame {p : Bytes} (h : p.length < 2 ^ 31) (rest : Bytes) :
    takeFrame (frame p ++ rest) = some (p, rest) := by
  have hlen := Int32.toInt_ofNat_of_lt h
  have hlength : (Int32.ofNat p.length).toInt.toNat = p.length := by omega
  rw [takeFrame, frame, List.append_assoc, getInt_putInt, Option.bind_eq_bind, Option.bind_some]
  simp only [hlength, getBytes_append rfl rest]
  rw [if_neg (by omega)]

lemma takeFrame_shortens {s p rest : Bytes} (h : takeFrame s = some (p, rest)) :
    rest.length < s.length := by
  obtain ⟨-, rfl⟩ := takeFrame_eq_some h
  simp [frame, putInt, bigEndian]
  omega

lemma takeFrame_stable {s p rest : Bytes} (h : takeFrame s = some (p, rest)) (t : Bytes) :
    takeFrame (s ++ t) = some (p, rest ++ t) := by
  obtain ⟨hlt, rfl⟩ := takeFrame_eq_some h
  rw [List.append_assoc]
  exact takeFrame_frame hlt _

def lengthField : Taker UInt8 Bytes where
  take := takeFrame
  shortens := takeFrame_shortens
  stable := takeFrame_stable

/-- What has arrived and is no frame yet is kept. -/
def lengthFieldDecoder : FrameDecoder where
  State := Bytes
  new := []
  channelRead buffer chunk :=
    ((lengthField.drain (buffer ++ chunk)).2, (lengthField.drain (buffer ++ chunk)).1)

lemma frames_eq (buffer : Bytes) (chunks : List Bytes) :
    lengthFieldDecoder.frames buffer chunks = (lengthField.receive buffer chunks).1 := by
  induction chunks generalizing buffer with
  | nil => rfl
  | cons chunk chunks ih => exact congrArg _ (ih _)

lemma splits_lengthFieldDecoder : lengthFieldDecoder.Splits FRAME_MAX_LENGTH := by
  intro payloads chunks hfits hchunks
  have hreads : lengthField.Reads (fun p => p.length < 2 ^ 31) frame :=
    fun p rest hp => takeFrame_frame hp rest
  have hshort : ∀ p ∈ payloads, p.length < 2 ^ 31 := fun p hp => by
    have hfit := hfits p hp
    unfold FRAME_MAX_LENGTH at hfit
    omega
  have hnothing : lengthField.take [] = none := rfl
  have hdrain := Taker.drain_flatMap hreads hshort hnothing
  have hreceive : lengthField.receive [] chunks = (payloads, []) := by
    rw [Taker.receive_eq rfl, List.nil_append, hchunks]
    rw [List.append_nil] at hdrain
    exact hdrain
  exact (frames_eq [] chunks).trans (congrArg Prod.fst hreceive)

/-- The fields in the order of their names, without those that are `null`. -/
def testJSONString (cmd : RemotingCommand) : Text :=
  "\x7b\"code\":".toList ++ Strings.valueOf cmd.code ++
    (cmd.extFields.elim [] fun extFields => ",\"extFields\":\x7b".toList ++
      ",".toList.intercalate (extFields.entries.map fun e =>
        "\"".toList ++ e.1 ++ "\":\"".toList ++ e.2 ++ "\"".toList) ++ "\x7d".toList) ++
    ",\"flag\":".toList ++ Strings.valueOf cmd.flag ++
    ",\"language\":\"JAVA\",\"opaque\":".toList ++ Strings.valueOf cmd.opaqueId ++
    (cmd.remark.elim [] fun remark => ",\"remark\":\"".toList ++ remark ++ "\"".toList) ++
    ",\"version\":".toList ++ Strings.valueOf cmd.version ++ "\x7d".toList

def heartBeat : RemotingCommand := { code := 34, opaqueId := 7, body := some [123, 125] }

def getMaxOffset : RemotingCommand where
  code := 30
  opaqueId := 8
  customHeader := some ⟨CustomHeader.GetMaxOffsetRequestHeader,
    fun i => match i with
      | ⟨0, _⟩ => some "TopicTest".toList
      | ⟨1, _⟩ => some (3 : Int32)⟩

def found : RemotingCommand where
  code := 0
  opaqueId := 9
  flag := 1
  remark := some "FOUND".toList

lemma toInt_two : (2 : Int32).toInt = twoByteHeader.limit := by decide

def pulledMessage : SelectMapedBufferResult := ⟨twoByteHeader, 2, rfl, toInt_two⟩

/-- The answer to a pull is transferred in three calls. -/
def threeWrites : List Write :=
  [.netty heartBeat, .encode getMaxOffset, .pagecache found [pulledMessage, pulledMessage]
    [1000, 2, 2]]

def testJson : Json where
  toJSONString := testJSONString
  parseObject s := ((threeWrites.map fun w => w.cmd.makeCustomHeaderToNet).find? fun cmd =>
    testJSONString cmd = s).map fun cmd => { cmd with customHeader := none, body := none }

theorem transmits_three :
    (∃ bs, threeWrites.mapM (Write.bytes testJson) = some bs ∧ ∀ chunks : List Bytes,
      chunks.flatten = bs.flatten →
        NettyDecoder.commands testJson lengthFieldDecoder chunks =
          threeWrites.map fun w => some w.received) ∧
    ∀ w ∈ threeWrites, ∀ C header, w.cmd.customHeader = some ⟨C, header⟩ →
      w.cmd.extFields = none → CustomHeader.ReadsBack header →
        w.received.decodeCommandCustomHeader C = .ok (some header) := by
  refine transmits splits_lengthFieldDecoder ?_ ?_ (by decide +kernel)
  · simp only [threeWrites, List.forall_mem_cons, List.not_mem_nil, false_imp_iff, implies_true,
      and_true]
    exact ⟨rfl, rfl, rfl⟩
  · simp only [threeWrites, List.forall_mem_cons, List.not_mem_nil, false_imp_iff, implies_true,
      and_true]
    refine ⟨trivial, trivial, fun header hheader => ?_⟩
    have hall : (Write.pagecacheHeader testJson found [pulledMessage, pulledMessage]).all
        fun header => ((answer header [pulledMessage, pulledMessage]).after
          [1000, 2, 2]).remaining = [] := by
      decide
    exact of_decide_eq_true ((Option.all_eq_true _ _).mp hall header hheader)

end CloudMQ.RemotingCommands
