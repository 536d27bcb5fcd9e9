import ErgoNode.Lib.Run
import ErgoNode.Network.Message
import ErgoNode.Network.Service
import ErgoNode.Proof.Network.RoundTrip

/-!
# Messages over a stream

The frames of some messages give these messages back however the stream is cut, and a part of a
frame stays in the buffer.
-/

namespace ErgoNode.Proof.Network
open Lib MessageCodec

variable {blake2b256 : Bytes → Digest32} {json : SerdeJson} {magic : Octets 4}

/-- A message whose payload is decoded to the message, and its frame. -/
def IsFrame (blake2b256 : Bytes → Digest32) (json : SerdeJson) (magic : Octets 4) (message : Message)
    (frame : Bytes) : Prop :=
  (withMagic magic).encode blake2b256 json message = .ok frame ∧
    ∀ bytes, message.encode json = .ok bytes → Message.decoded? json bytes = some message

def writeHeader (magic : Octets 4) (msgType : UInt8) (length : Nat) : Bytes :=
  magic.bytes ++ msgType :: toBeBytes length

def writeBody (blake2b256 : Bytes → Digest32) (payload : Bytes) : Bytes :=
  if payload.length > 0 then checksum blake2b256 payload ++ payload else []

def writeFrame (blake2b256 : Bytes → Digest32) (magic : Octets 4) (msgType : UInt8) (payload : Bytes) : Bytes :=
  writeHeader magic msgType payload.length ++ writeBody blake2b256 payload

theorem frame_eq {message : Message} {frame : Bytes} (is : IsFrame blake2b256 json magic message frame) :
    ∃ msgType payload, frame = writeFrame blake2b256 magic msgType payload ∧
      payload.length ≤ maxMessageSize ∧ decodeMessage json (msgType :: payload) = .ok (some message) := by
  obtain ⟨encoded, inverse⟩ := is
  obtain ⟨bytes, written, framed⟩ := Except.bind_ok_eq_ok.mp encoded
  cases bytes with
  | nil => exact absurd framed Except.throw_ne_ok
  | cons msgType payload =>
      dsimp only at framed
      split at framed
      · exact absurd framed Except.throw_ne_ok
      · next small =>
          have frameBytes : frame = writeFrame blake2b256 magic msgType payload := by
            rw [← Except.pure_eq_ok.mp framed, writeFrame, writeHeader, List.append_assoc]
            rfl
          refine ⟨msgType, payload, frameBytes, Nat.le_of_not_lt small, ?_⟩
          have decoded := inverse _ written
          unfold Message.decoded? at decoded
          unfold decodeMessage
          split at decoded
          · next result =>
              cases decoded
              rw [result]
              rfl
          · cases decoded

theorem length_checksum (payload : Bytes) : (checksum blake2b256 payload).length = checksumSize := by
  rw [checksum, List.length_take, (blake2b256 payload).size]
  rfl

theorem length_header (msgType : UInt8) (length : Nat) :
    (writeHeader magic msgType length).length = baseHeaderSize := by
  simp [writeHeader, magic.size, length_toBeBytes, baseHeaderSize]

theorem length_body (payload : Bytes) :
    baseHeaderSize + (writeBody blake2b256 payload).length = totalSize payload.length := by
  unfold writeBody totalSize
  split
  · rw [List.length_append, length_checksum, Nat.add_assoc]
  · rfl

theorem header_fields {msgType : UInt8} {length : Nat} (small : length < 2 ^ 32) (more : Bytes) :
    (writeHeader magic msgType length ++ more).take 4 = magic.bytes ∧
      (writeHeader magic msgType length ++ more).getD 4 0 = msgType ∧
      fromBeBytes (((writeHeader magic msgType length ++ more).drop 5).take 4) = length := by
  obtain ⟨bytes, size⟩ := magic
  match bytes, size with
  | [a, b, c, d], _ => exact ⟨rfl, rfl, fromBeBytes_toBeBytes small⟩

theorem small_of_cap {payload : Bytes} (cap : payload.length ≤ maxMessageSize) : payload.length < 2 ^ 32 := by
  unfold maxMessageSize at cap
  omega

theorem decode_header {msgType : UInt8} {payload : Bytes} (cap : payload.length ≤ maxMessageSize) (more : Bytes) :
    (withMagic magic).decode blake2b256 json (writeHeader magic msgType payload.length ++ more) =
      if baseHeaderSize + more.length < totalSize payload.length then
        (.ok none, writeHeader magic msgType payload.length ++ more)
      else if payload.length > 0 then
        if checksum blake2b256 ((more.drop checksumSize).take payload.length) = more.take checksumSize then
          (decodeMessage json (msgType :: (more.drop checksumSize).take payload.length),
            more.drop (checksumSize + payload.length))
        else (.error (.error (.invalidMessage "Checksum mismatch")), more.drop (checksumSize + payload.length))
      else (decodeMessage json [msgType], more) := by
  obtain ⟨magicField, typeField, lengthField⟩ := @header_fields magic msgType _ (small_of_cap cap) more
  have size : (writeHeader magic msgType payload.length ++ more).length = baseHeaderSize + more.length := by
    rw [List.length_append, length_header]
  have behind : (writeHeader magic msgType payload.length ++ more).drop baseHeaderSize = more :=
    List.drop_left' (length_header _ _)
  have sameMagic : ¬ magic.bytes ≠ (withMagic magic).magic.bytes := not_not_intro rfl
  have inside : ¬ payload.length > (withMagic magic).maxSize := Nat.not_lt.mpr cap
  unfold MessageCodec.decode
  dsimp only
  rw [magicField, typeField, lengthField, size, behind, if_neg (by omega), if_neg sameMagic, if_neg inside]

theorem decode_short {src : Bytes} (short : src.length < baseHeaderSize) :
    (withMagic magic).decode blake2b256 json src = (.ok none, src) := if_pos short

theorem decode_whole {message : Message} {frame : Bytes} (is : IsFrame blake2b256 json magic message frame)
    (rest : Bytes) : (withMagic magic).decode blake2b256 json (frame ++ rest) = (.ok (some message), rest) := by
  obtain ⟨msgType, payload, rfl, cap, decoded⟩ := frame_eq is
  have whole : ¬ baseHeaderSize + (writeBody blake2b256 payload ++ rest).length < totalSize payload.length := by
    have size := @length_body blake2b256 payload
    rw [List.length_append]
    omega
  rw [writeFrame, List.append_assoc, decode_header cap, if_neg whole]
  by_cases filled : payload.length > 0
  · have body : writeBody blake2b256 payload = checksum blake2b256 payload ++ payload := if_pos filled
    have summed := @length_checksum blake2b256 payload
    rw [if_pos filled, body, List.append_assoc, ← List.drop_drop, List.drop_left' summed,
      List.take_left' summed, List.take_left, List.drop_left, if_pos rfl, decoded]
  · obtain rfl := List.length_eq_zero_iff.mp (Nat.eq_zero_of_not_pos filled)
    rw [if_neg filled, decoded]
    rfl

theorem decode_start {message : Message} {frame : Bytes} (is : IsFrame blake2b256 json magic message frame)
    {first rest : Bytes} (split : first ++ rest = frame) (left : rest ≠ []) :
    (withMagic magic).decode blake2b256 json first = (.ok none, first) := by
  obtain ⟨msgType, payload, rfl, cap, -⟩ := frame_eq is
  have size := congrArg List.length split
  rw [writeFrame, List.length_append, List.length_append, length_header, length_body] at size
  have missing := List.length_pos_of_ne_nil left
  by_cases short : first.length < baseHeaderSize
  · exact decode_short short
  · obtain ⟨more, rfl⟩ : ∃ more, first = writeHeader magic msgType payload.length ++ more := by
      rcases List.append_eq_append_iff.mp split with ⟨past, header, -⟩ | ⟨more, begun, -⟩
      · have lengths := congrArg List.length header
        rw [List.length_append, length_header] at lengths
        obtain rfl : past = [] := List.length_eq_zero_iff.mp (by omega)
        exact ⟨[], by rw [header, List.append_nil, List.append_nil]⟩
      · exact ⟨more, begun⟩
    rw [List.length_append, length_header] at size
    rw [decode_header cap, if_pos (by omega)]

theorem codecFrames (blake2b256 : Bytes → Digest32) (json : SerdeJson) (magic : Octets 4) :
    ((withMagic magic).decode blake2b256 json).Frames (IsFrame blake2b256 json magic) where
  empty := rfl
  nonempty is := by
    obtain ⟨msgType, payload, rfl, -, -⟩ := frame_eq is
    have size := @length_header magic msgType payload.length
    intro empty
    rw [(List.append_eq_nil_iff.mp empty).1] at size
    cases size
  whole := decode_whole
  start is := fun split left => decode_start is split left

/-- The frames of some messages, in any chunks, are decoded to exactly these messages; and a strict part
of a frame gives nothing and stays in the buffer. -/
theorem chunks_decoded (blake2b256 : Bytes → Digest32) (json : SerdeJson) (magic : Octets 4)
    {messages : List Message} {encoded : List Bytes}
    (inverse : ∀ message ∈ messages, ∀ bytes, message.encode json = .ok bytes →
      Message.decoded? json bytes = some message)
    (frames : List.Forall₂ (fun message frame => (withMagic magic).encode blake2b256 json message = .ok frame)
      messages encoded) :
    (∀ chunks : List Bytes, chunks.flatten = encoded.flatten →
      ((withMagic magic).decode blake2b256 json).feedAll chunks = ⟨messages, [], none⟩) ∧
      ∀ frame ∈ encoded, ∀ first rest, first ++ rest = frame → rest ≠ [] →
        (withMagic magic).decode blake2b256 json first = (.ok none, first) := by
  have each : List.Forall₂ (IsFrame blake2b256 json magic) messages encoded := by
    induction frames with
    | nil => exact .nil
    | cons head tail ih =>
        exact .cons ⟨head, inverse _ List.mem_cons_self⟩
          (ih fun message member => inverse message (List.mem_cons_of_mem _ member))
  refine ⟨fun chunks stream => (codecFrames blake2b256 json magic).feedAll_eq each stream, ?_⟩
  intro frame member first rest split left
  obtain ⟨i, bound, rfl⟩ := List.getElem_of_mem member
  exact decode_start (each.get (each.length_eq ▸ bound) bound) split left

def announcement : Message := .inv ⟨2, [List.replicate 32 7]⟩

def wholeStream : Bytes :=
  [1, 0, 2, 4, 1, 0, 0, 0, 0] ++ ([1, 0, 2, 4, 55, 0, 0, 0, 34, 0, 0, 0, 0, 2, 1] ++ List.replicate 32 7) ++
    [1, 0, 2, 4, 76, 0, 0, 0, 0]

/-- An announcement between two requests without a payload, cut within the first request, before and within
the checksum of the announcement, and within its payload. -/
theorem messages_decoded :
    (new.decode (fun _ => .zero) plainJson).feedAll [wholeStream.take 6, (wholeStream.drop 6).take 12,
      (wholeStream.drop 18).take 2, (wholeStream.drop 20).take 20, wholeStream.drop 40] =
        ⟨[.getPeers, announcement, .getSnapshotsInfo], [], none⟩ := by
  have inverse : ∀ message ∈ [Message.getPeers, announcement, .getSnapshotsInfo], ∀ bytes,
      message.encode plainJson = .ok bytes → Message.decoded? plainJson bytes = some message := by
    intro message member bytes encoded
    simp only [List.mem_cons, List.not_mem_nil, or_false] at member
    rcases member with rfl | rfl | rfl
    · cases encoded
      rfl
    · cases encoded
      rfl
    · cases encoded
      rfl
  exact (chunks_decoded (fun _ => .zero) plainJson mainnetMagic inverse
    (.cons rfl (.cons rfl (.cons rfl .nil)))).1 _ rfl

/-! ### Between two connections -/

section Pipes
open PeerConnection
variable {c after : PeerConnection} {now : Nat} {step : TaskStep} {effect : Effect}

def gone : Stage → Bool
  | .removing | .unmarking | .leaving | .failing _ | .finished | .panicked => true
  | _ => false

def inLoop : Stage → Bool
  | .looping _ | .delivering _ _ => true
  | _ => false

theorem not_inLoop {stage : Stage} (left : gone stage) : ¬ inLoop stage := by
  cases stage <;> simp_all [gone, inLoop]

inductive Turns (blake2b256 : Bytes → Digest32) (json : SerdeJson) (magic : Octets 4) (c : PeerConnection) :
    TaskStep → PeerConnection → Effect → Prop where
  | leave {step : TaskStep} {after : PeerConnection} (left : gone after.stage) (silent : after.written = c.written) :
      Turns blake2b256 json magic c step after .quiet
  | write {message : Message} {inbox : List Message} {frame : Bytes} (next : c.inbox = message :: inbox)
      (encoded : (withMagic magic).encode blake2b256 json message = .ok frame) :
      Turns blake2b256 json magic c (.send .done) { c with inbox, written := c.written ++ frame } .quiet
  | cut {reason : String} {wrote : Nat} {message : Message} {inbox : List Message} {frame : Bytes}
      (next : c.inbox = message :: inbox) (encoded : (withMagic magic).encode blake2b256 json message = .ok frame) :
      Turns blake2b256 json magic c (.send (.failed reason wrote))
        { c with stage := .removing, inbox, written := c.written ++ frame.take wrote } .quiet
  | read {chunk buffer : Bytes} (here : c.stage = .looping buffer) :
      Turns blake2b256 json magic c (.read (.bytes chunk)) { c with stage := .looping (buffer ++ chunk) } .quiet
  | take {message : Message} {buffer rest : Bytes} (here : c.stage = .looping buffer)
      (decoded : (withMagic magic).decode blake2b256 json buffer = (.ok (some message), rest)) :
      Turns blake2b256 json magic c .proceed { c with stage := .delivering message rest } .quiet
  | pass {message : Message} {buffer : Bytes} (here : c.stage = .delivering message buffer) :
      Turns blake2b256 json magic c .proceed { c with stage := .looping buffer } (.emit (.messageReceived c.peerId message))

theorem turns_of_next (loop : inLoop c.stage) (taken : c.next blake2b256 json magic now step = some (after, effect)) :
    Turns blake2b256 json magic c step after effect := by
  unfold PeerConnection.next at taken
  cases here : c.stage with
  | looping buffer =>
      rw [here] at taken
      cases step with
      | connect result => cases taken
      | write result => cases taken
      | read result =>
          dsimp only at taken
          split at taken
          · obtain ⟨stage, heard, same⟩ := Option.map_eq_some_iff.mp taken
            cases same
            unfold onFrameRead at heard
            split at heard <;> cases heard
            · exact .leave rfl rfl
            · exact .read here
            · exact .leave rfl rfl
          · cases taken
      | send result =>
          obtain ⟨sent, found, same⟩ := Option.map_eq_some_iff.mp taken
          cases same
          unfold PeerConnection.sendNext at found
          split at found
          · cases found
          · next message inbox queued =>
              split at found <;> cases found
              · next frame encoded =>
                  rw [← here]
                  exact .write queued encoded
              · next frame reason wrote encoded => exact .cut queued encoded
              · exact .leave rfl rfl
      | proceed =>
          obtain ⟨stage, found, same⟩ := Option.map_eq_some_iff.mp taken
          cases same
          unfold nextFrame at found
          split at found <;> cases found
          · next decoded => exact .take here decoded
          · exact .leave rfl rfl
          · exact .leave rfl rfl
  | delivering message buffer =>
      rw [here] at taken
      cases step with
      | proceed =>
          cases taken
          exact .pass here
      | _ => cases taken
  | _ =>
      rw [here] at loop
      cases loop

theorem gone_next (left : gone c.stage) (taken : c.next blake2b256 json magic now step = some (after, effect)) :
    gone after.stage ∧ after.written = c.written ∧ Pipe.passedOn effect = [] := by
  unfold PeerConnection.next at taken
  cases here : c.stage with
  | removing | unmarking | leaving | failing =>
      rw [here] at taken
      cases step with
      | proceed =>
          cases taken
          exact ⟨rfl, rfl, rfl⟩
      | _ => cases taken
  | finished | panicked =>
      rw [here] at taken
      cases step <;> cases taken
  | _ =>
      rw [here] at left
      cases left

/-! ### Runs of a pipe -/

variable {pipe t : Pipe} {action : Pipe.Action} {actions : List Pipe.Action}

/-- Where the receiver is with the frames that arrive: what it passes on next, and what it has of the stream. -/
inductive Reaches (stage : Stage) (flight : Bytes) (ahead : List Message) (encoded : List Bytes) : Prop where
  | gone (left : gone stage)
  | looping (buffer : Bytes) (here : stage = .looping buffer) (none : ahead = []) (stream : buffer ++ flight = encoded.flatten)
  | delivering (message : Message) (buffer : Bytes) (here : stage = .delivering message buffer) (next : ahead = [message])
      (stream : buffer ++ flight = encoded.flatten)

/-- The messages that were given are passed on, next, in the stream, or still with the sender. What is missing of
the last frame in the stream was not written by a send that failed. -/
structure Carries (blake2b256 : Bytes → Digest32) (json : SerdeJson) (magic : Octets 4) (pipe : Pipe)
    (ahead coming waiting : List Message) (encoded : List Bytes) (missing : Bytes) : Prop where
  given : pipe.given = pipe.passed ++ (ahead ++ (coming ++ waiting))
  frames : List.Forall₂ (IsFrame blake2b256 json magic) coming encoded
  sender : gone pipe.sender.stage ∨ inLoop pipe.sender.stage ∧ waiting = pipe.sender.inbox ∧ missing = []
  receiver : Reaches pipe.receiver.stage (pipe.flight ++ missing) ahead encoded

def Readable (json : SerdeJson) (message : Message) : Prop :=
  ∀ bytes, message.encode json = .ok bytes → Message.decoded? json bytes = some message

structure Carried (blake2b256 : Bytes → Digest32) (json : SerdeJson) (magic : Octets 4) (pipe : Pipe) : Prop where
  readable : ∀ message ∈ pipe.given, Readable json message
  carries : ∃ ahead coming waiting encoded missing, Carries blake2b256 json magic pipe ahead coming waiting encoded missing

theorem Reaches.more {stage : Stage} {flight frame : Bytes} {ahead : List Message} {encoded : List Bytes}
    (reaches : Reaches stage flight ahead encoded) : Reaches stage (flight ++ frame) ahead (encoded ++ [frame]) := by
  have longer {buffer : Bytes} (stream : buffer ++ flight = encoded.flatten) :
      buffer ++ (flight ++ frame) = (encoded ++ [frame]).flatten := by
    rw [← List.append_assoc, stream, List.flatten_append, List.flatten_singleton]
  cases reaches with
  | gone left => exact .gone left
  | looping buffer here none stream => exact .looping buffer here none (longer stream)
  | delivering message buffer here next stream => exact .delivering message buffer here next (longer stream)

theorem carried_give {message : Message} (carried : Carried blake2b256 json magic pipe) (readable : Readable json message)
    (taken : pipe.step blake2b256 json magic (.give message) = some t) : Carried blake2b256 json magic t := by
  obtain ⟨ahead, coming, waiting, encoded, missing, carries⟩ := carried.carries
  unfold Pipe.step at taken
  dsimp only at taken
  split at taken <;> cases taken
  refine ⟨?_, ahead, coming, waiting ++ [message], encoded, missing, ?_, carries.frames, ?_, carries.receiver⟩
  · intro other member
    rcases List.mem_append.mp member with old | new
    · exact carried.readable other old
    · exact List.mem_singleton.mp new ▸ readable
  · dsimp only
    rw [carries.given]
    simp only [List.append_assoc]
  · rcases carries.sender with left | ⟨loop, same, whole⟩
    · exact .inl left
    · exact .inr ⟨loop, congrArg (· ++ [message]) same, whole⟩

/-- A message that is sent goes into the stream as far as the send gets. -/
theorem Carries.sent {ahead coming : List Message} {encoded : List Bytes} {message : Message}
    {frame written missing : Bytes} {sender : PeerConnection}
    (carries : Carries blake2b256 json magic pipe ahead coming (message :: sender.inbox) encoded [])
    (is : IsFrame blake2b256 json magic message frame) (parts : written ++ missing = frame)
    (loop : gone sender.stage ∨ inLoop sender.stage ∧ missing = []) :
    Carries blake2b256 json magic { pipe with sender, flight := pipe.flight ++ written } ahead (coming ++ [message])
      sender.inbox (encoded ++ [frame]) missing where
  given := by
    rw [carries.given]
    simp only [List.append_assoc, List.singleton_append]
  frames := List.rel_append carries.frames (.cons is .nil)
  sender := loop.imp_right fun still => ⟨still.1, rfl, still.2⟩
  receiver := by
    dsimp only
    rw [List.append_assoc, parts, ← List.append_nil pipe.flight]
    exact carries.receiver.more

theorem carried_sender (carried : Carried blake2b256 json magic pipe)
    (taken : pipe.step blake2b256 json magic (.sender now step) = some t) : Carried blake2b256 json magic t := by
  obtain ⟨ahead, coming, waiting, encoded, missing, carries⟩ := carried.carries
  obtain ⟨⟨after, effect⟩, moved, same⟩ := Option.bind_eq_some_iff.mp taken
  cases same
  have silent (same : after.written = pipe.sender.written) :
      pipe.flight ++ after.written.drop pipe.sender.written.length = pipe.flight := by
    rw [same, List.drop_length, List.append_nil]
  rcases carries.sender with left | ⟨loop, queue, rfl⟩
  · obtain ⟨still, same, -⟩ := gone_next left moved
    refine ⟨carried.readable, ahead, coming, waiting, encoded, missing, carries.given, carries.frames, .inl still, ?_⟩
    dsimp only
    rw [silent same]
    exact carries.receiver
  · have quiet (same : after.written = pipe.sender.written)
        (sender : gone after.stage ∨ inLoop after.stage ∧ waiting = after.inbox) :
        Carried blake2b256 json magic { pipe with
          sender := after, flight := pipe.flight ++ after.written.drop pipe.sender.written.length } := by
      refine ⟨carried.readable, ahead, coming, waiting, encoded, [], carries.given, carries.frames, ?_, ?_⟩
      · exact sender.imp_right fun still => ⟨still.1, still.2, rfl⟩
      · dsimp only
        rw [silent same]
        exact carries.receiver
    have sent {message : Message} {sender : PeerConnection} {frame written : Bytes} (missing : Bytes)
        (next : pipe.sender.inbox = message :: sender.inbox)
        (encodes : (withMagic magic).encode blake2b256 json message = .ok frame) (parts : written ++ missing = frame)
        (loop : gone sender.stage ∨ inLoop sender.stage ∧ missing = []) :
        Carried blake2b256 json magic { pipe with sender, flight := pipe.flight ++ written } := by
      obtain rfl : waiting = message :: sender.inbox := queue.trans next
      have readable : Readable json message := by
        refine carried.readable message ?_
        rw [carries.given]
        simp
      exact ⟨carried.readable, _, _, _, _, _, carries.sent ⟨encodes, readable⟩ parts loop⟩
    cases turns_of_next loop moved with
    | leave left same => exact quiet same (.inl left)
    | read here => exact quiet rfl (.inr ⟨rfl, queue⟩)
    | take here decoded => exact quiet rfl (.inr ⟨rfl, queue⟩)
    | pass here => exact quiet rfl (.inr ⟨rfl, queue⟩)
    | write next encodes =>
        dsimp only
        rw [List.drop_left]
        exact sent [] next encodes (List.append_nil _) (.inr ⟨loop, rfl⟩)
    | cut next encodes =>
        dsimp only
        rw [List.drop_left]
        exact sent _ next encodes (List.take_append_drop ..) (.inl rfl)

theorem carried_receiver (carried : Carried blake2b256 json magic pipe)
    (taken : pipe.step blake2b256 json magic (.receiver now step) = some t) : Carried blake2b256 json magic t := by
  obtain ⟨ahead, coming, waiting, encoded, missing, carries⟩ := carried.carries
  obtain ⟨flight, arrived, stepped⟩ := Option.bind_eq_some_iff.mp taken
  obtain ⟨⟨after, effect⟩, moved, same⟩ := Option.bind_eq_some_iff.mp stepped
  cases same
  have silent (silent : Pipe.passedOn effect = []) (receiver : Reaches after.stage (flight ++ missing) ahead encoded) :
      Carried blake2b256 json magic
        { pipe with receiver := after, flight, passed := pipe.passed ++ Pipe.passedOn effect } := by
    refine ⟨carried.readable, ahead, coming, waiting, encoded, missing, ?_, carries.frames, carries.sender, receiver⟩
    rw [silent, List.append_nil]
    exact carries.given
  cases carries.receiver with
  | gone left =>
      obtain ⟨still, -, nothing⟩ := gone_next left moved
      exact silent nothing (.gone still)
  | looping buffer here none stream =>
      have turns := turns_of_next (by rw [here]; rfl) moved
      cases turns with
      | leave left _ => exact silent rfl (.gone left)
      | write =>
          cases arrived
          exact silent rfl (.looping buffer here none stream)
      | cut => exact silent rfl (.gone rfl)
      | @read chunk buffer there =>
          cases here.symm.trans there
          refine silent rfl (.looping _ rfl none ?_)
          unfold Pipe.arrive at arrived
          dsimp only at arrived
          split at arrived <;> cases arrived
          next starts =>
            obtain ⟨behind, split⟩ := starts
            rw [← stream, ← split, List.drop_left, List.append_assoc, List.append_assoc]
      | @take message _ rest there decoded =>
          cases arrived
          cases here.symm.trans there
          rcases (codecFrames blake2b256 json magic).decode_front carries.frames stream with
            idle | ⟨first, later, left, behind, rfl, frames, found, stream⟩
          · cases idle.symm.trans decoded
          · cases found.symm.trans decoded
            refine ⟨carried.readable, [message], later, waiting, left, missing, ?_, frames, carries.sender,
              .delivering message rest rfl rfl stream⟩
            dsimp only
            rw [carries.given, none]
            simp [Pipe.passedOn]
      | pass there => cases here.symm.trans there
  | delivering message buffer here next stream =>
      have turns := turns_of_next (by rw [here]; rfl) moved
      cases turns with
      | leave left _ => exact silent rfl (.gone left)
      | write =>
          cases arrived
          exact silent rfl (.delivering message buffer here next stream)
      | cut => exact silent rfl (.gone rfl)
      | read there => cases here.symm.trans there
      | take there _ => cases here.symm.trans there
      | pass there =>
          cases arrived
          cases here.symm.trans there
          refine ⟨carried.readable, [], coming, waiting, encoded, missing, ?_, carries.frames, carries.sender,
            .looping buffer rfl rfl stream⟩
          dsimp only
          rw [carries.given, next]
          simp [Pipe.passedOn]

theorem carried_start {sender receiver : PeerConnection} (sending : inLoop sender.stage) (empty : sender.inbox = [])
    (receiving : receiver.stage = .looping []) : Carried blake2b256 json magic (.start sender receiver) where
  readable := fun _ member => absurd member List.not_mem_nil
  carries := by
    refine ⟨[], [], [], [], [], rfl, .nil, .inr ⟨sending, empty.symm, rfl⟩, ?_⟩
    exact .looping [] receiving rfl rfl

variable (blake2b256 json magic)

/-- Whatever steps two connections take, and however the stream is cut: what one passes on is what the other was
given, in order; and while both are in their loops nothing is lost, and what is read gives no error. -/
theorem passed_of_given (sender receiver : PeerConnection) (actions : List Pipe.Action) (sending : inLoop sender.stage)
    (empty : sender.inbox = []) (receiving : receiver.stage = .looping [])
    (readable : ∀ message, .give message ∈ actions → Readable json message)
    (ran : run (Pipe.step blake2b256 json magic) (.start sender receiver) actions = some t) :
    t.passed <+: t.given ∧
    (inLoop t.sender.stage → inLoop t.receiver.stage → ∃ ahead coming encoded,
      t.given = t.passed ++ (ahead ++ (coming ++ t.sender.inbox)) ∧
      List.Forall₂ (IsFrame blake2b256 json magic) coming encoded ∧
      ((∃ buffer, t.receiver.stage = .looping buffer ∧ ahead = [] ∧ buffer ++ t.flight = encoded.flatten ∧
          ∀ stage, nextFrame blake2b256 json magic buffer = some stage → inLoop stage) ∨
        ∃ message buffer, t.receiver.stage = .delivering message buffer ∧ ahead = [message] ∧
          buffer ++ t.flight = encoded.flatten)) := by
  have always : Always (Pipe.step blake2b256 json magic) (Carried blake2b256 json magic) (.start sender receiver) actions := by
    refine Along.invariant _ ?_ (carried_start sending empty receiving) ((along_actions ran).mpr fun _ member => member)
    intro s action u carried member taken
    cases action with
    | give message => exact carried_give carried (readable message member) taken
    | sender now step => exact carried_sender carried taken
    | receiver now step => exact carried_receiver carried taken
  obtain ⟨-, ahead, coming, waiting, encoded, missing, carries⟩ := always t ⟨actions, List.prefix_rfl, ran⟩
  refine ⟨⟨_, carries.given.symm⟩, fun writing reading => ?_⟩
  obtain ⟨-, same, rfl⟩ := carries.sender.resolve_left fun left => not_inLoop left writing
  have receiver := carries.receiver
  rw [List.append_nil] at receiver
  refine ⟨ahead, coming, encoded, ?_, carries.frames, ?_⟩
  · rw [← same]
    exact carries.given
  · cases receiver with
    | gone left => exact absurd reading (not_inLoop left)
    | looping buffer here none stream =>
        refine .inl ⟨buffer, here, none, stream, fun stage found => ?_⟩
        unfold nextFrame at found
        rcases (codecFrames blake2b256 json magic).decode_front carries.frames stream with
          idle | ⟨message, later, left, rest, rfl, frames, front, stream⟩
        · rw [idle] at found
          cases found
        · rw [front] at found
          cases found
          rfl
    | delivering message buffer here next stream => exact .inr ⟨message, buffer, here, next, stream⟩

end Pipes

def loopingPeer : PeerConnection := ⟨.v4 0 9030, false, .new 0 "ergo" protocolVersion "node", .looping [], [], []⟩

def requestActions : List Pipe.Action :=
  [.give .getPeers, .sender 0 (.send .done), .receiver 0 (.read (.bytes (wholeStream.take 6))),
    .receiver 0 (.read (.bytes ((wholeStream.drop 6).take 3))), .receiver 0 .proceed, .receiver 0 .proceed]

def requestPipe : Pipe :=
  (run (Pipe.step (fun _ => .zero) plainJson mainnetMagic) (.start loopingPeer loopingPeer) requestActions).getD
    (.start loopingPeer loopingPeer)

theorem requestPipe_passed : requestPipe.passed = [.getPeers] ∧ requestPipe.passed <+: requestPipe.given := by
  have readable : ∀ message, .give message ∈ requestActions → Readable plainJson message := by
    intro message member
    obtain rfl : message = .getPeers := by simpa [requestActions] using member
    rintro bytes ⟨⟩
    rfl
  exact ⟨rfl, (passed_of_given (fun _ => .zero) plainJson mainnetMagic loopingPeer loopingPeer requestActions rfl rfl rfl
    readable rfl).1⟩

end ErgoNode.Proof.Network
