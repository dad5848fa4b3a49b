import MobaDisplay.Lib.AsyncRead
import MobaDisplay.Lib.WebSocketFrame

/-!
# `SimpleWeb::SocketServerBase`: reading messages

`read_message` asks for two bytes, then for the bytes of a longer length, and then
`read_message_content` for the mask and the payload. The handler of the last read
puts the payload into a message: a new one, or the one whose fragments are coming in.
It answers a ping, echoes a close, hands a whole message to `on_message`, and
begins again.

What a handler does outside the connection is logged in order: what it sends, the
callbacks of the endpoint, and when it takes the connection out of the endpoint's
set. The guards of `std::size_t` arithmetic are kept, with its overflow.
-/

namespace MobaDisplay

open Cxx BigEndian
open WebSocket (Mask)

/-- `std::size_t` arithmetic. -/
def sizeT (n : Nat) : Nat := n % 2 ^ 64

/-- `error_code` -/
inductive ErrorCode where
  | messageSize
  | protocolError
  | operationCanceled
  /-- One that asio reports. -/
  | other (value : Int)
  deriving DecidableEq

/-- `InMessage` -/
structure InMessage where
  finRsvOpcode : UInt8
  length : Nat
  streambuf : Bytes
  deriving DecidableEq

/-- `InMessage::size` -/
def InMessage.size (m : InMessage) : Nat := m.length

/-- `InMessage::string` -/
def InMessage.string (m : InMessage) : Bytes := m.streambuf

/-- What the handlers of a connection do outside it. -/
inductive Effect where
  /-- `connection->send(out_message, callback, fin_rsv_opcode)` -/
  | send (message : Bytes) (finRsvOpcode : UInt8)
  | onMessage (message : InMessage)
  | onPing
  | onPong
  /-- `endpoint.connections.erase(connection)` -/
  | erase
  | onClose (status : Nat) (reason : Bytes)
  | onError (ec : ErrorCode)
  deriving DecidableEq

/-- The read under way. -/
inductive Reading where
  /-- The first two bytes of a frame. -/
  | firstBytes
  /-- Its length, in so many bytes. -/
  | lengthBytes (numBytes : Nat) (finRsvOpcode : UInt8)
  /-- Its mask and its payload. -/
  | content (length : Nat) (finRsvOpcode : UInt8)
  /-- None; nothing will be read any more. -/
  | ended
  deriving DecidableEq

structure Connection where
  streambuf : Bytes := []
  fragmentedInMessage : Option InMessage := none
  closed : Bool := false
  reading : Reading := .firstBytes
  log : List Effect := []
  /-- A byte was used that was never read. -/
  undefined : Bool := false
  deriving DecidableEq

/-- `SocketServerBase::Config`, as far as reading uses it. -/
structure SocketConfig where
  maxMessageSize : Nat := 2 ^ 64 - 1

namespace Connection

def logged (c : Connection) (effects : List Effect) : Connection :=
  { c with log := c.log ++ effects }

/-- `send_close`; only the first one is sent. -/
def sendClose (c : Connection) (status : Nat) (reason : Bytes) : Connection :=
  if c.closed then c
  else
    { c with closed := true }.logged
      [.send (UInt8.ofNat (status >>> 8) :: UInt8.ofNat (status % 256) :: reason) 136]

/-- `connection_close` -/
def connectionClose (c : Connection) (status : Nat) (reason : Bytes) : Connection :=
  { c with reading := .ended }.logged [.erase, .onClose status reason]

/-- `connection_error` -/
def connectionError (c : Connection) (ec : ErrorCode) : Connection :=
  { c with reading := .ended }.logged [.erase, .onError ec]

/-- `read_message` -/
def readMessage (c : Connection) : Connection := { c with reading := .firstBytes }

/-- The length of the fragments that have come in. -/
def fragmentedLength (c : Connection) : Nat :=
  match c.fragmentedInMessage with
  | some m => m.length
  | none => 0

/-- `read_message_content` -/
def readMessageContent (config : SocketConfig) (c : Connection) (length : Nat)
    (finRsvOpcode : UInt8) : Connection :=
  if sizeT (length + c.fragmentedLength) > config.maxMessageSize then
    ((c.connectionError .messageSize).sendClose 1009 (utf8 "message too big")).connectionClose 1009
      (utf8 "message too big")
  else
    { c with reading := .content length finRsvOpcode }

/-- The message the payload of a frame belongs to, before it is put there. -/
def inMessage (c : Connection) (length : Nat) (finRsvOpcode : UInt8) : InMessage :=
  if finRsvOpcode &&& 0x80 = 0 ∨ finRsvOpcode &&& 0x0f = 0 then
    match c.fragmentedInMessage with
    | none => ⟨finRsvOpcode ||| 0x80, length, []⟩
    | some m => { m with length := sizeT (m.length + length) }
  else ⟨finRsvOpcode, length, []⟩

/-- A message that fragments may still be added to is kept. -/
def keepFragmented (c : Connection) (finRsvOpcode : UInt8) (m : InMessage) : Connection :=
  if finRsvOpcode &&& 0x80 = 0 ∨ finRsvOpcode &&& 0x0f = 0 then
    { c with fragmentedInMessage := some m }
  else c

/-- What a close frame says: two calls of `get` for the status, and the rest. -/
def closeStatus (length : Nat) (m : InMessage) : Nat × Bytes :=
  if length ≥ 2 then
    let byte1 := m.streambuf.headD 255
    let byte2 := (m.streambuf.drop 1).headD 255
    ((byte1.toNat <<< 8) + byte2.toNat, m.streambuf.drop 2)
  else (0, m.streambuf)

/-- What the handler does with a message, by the opcode of the frame. -/
def dispatch (c : Connection) (length : Nat) (finRsvOpcode : UInt8) (m : InMessage) : Connection :=
  if finRsvOpcode &&& 0x0f = 8 then
    let (status, reason) := closeStatus length m
    (c.sendClose status reason).connectionClose status reason
  else if finRsvOpcode &&& 0x0f = 9 then
    (c.logged [.send m.string (finRsvOpcode + 1), .onPing]).readMessage
  else if finRsvOpcode &&& 0x0f = 10 then
    (c.logged [.onPong]).readMessage
  else if finRsvOpcode &&& 0x80 = 0 then
    c.readMessage
  else
    { c.logged [.onMessage m] with fragmentedInMessage := none }.readMessage

/-- The handler of the last read of a frame. -/
def handleContent (c : Connection) (length : Nat) (finRsvOpcode : UInt8) : Connection :=
  match c.streambuf with
  | m0 :: m1 :: m2 :: m3 :: rest =>
      let mask : Mask := ⟨m0, m1, m2, m3⟩
      let inMessage := c.inMessage length finRsvOpcode
      let filled := { inMessage with
        streambuf := inMessage.streambuf ++ mask.apply (rest.take length) }
      ({ c with streambuf := rest.drop length }.keepFragmented finRsvOpcode filled).dispatch length
        finRsvOpcode filled
  -- `4 + length` was too large for a `std::size_t`
  | _ => { c with reading := .ended, undefined := true }

/-- The handler of the first read. -/
def handleFirstBytes (config : SocketConfig) (c : Connection) : Connection :=
  match c.streambuf with
  | first :: second :: rest =>
      let c := { c with streambuf := rest }
      if second < 128 then
        (c.sendClose 1002 (utf8 "message from client not masked")).connectionClose 1002
          (utf8 "message from client not masked")
      else
        let length := (second &&& 127).toNat
        if length = 126 then { c with reading := .lengthBytes 2 first }
        else if length = 127 then { c with reading := .lengthBytes 8 first }
        else readMessageContent config c length first
  | _ => { c with reading := .ended, undefined := true }

/-- The handler of the second read: its bytes are the length. -/
def handleLengthBytes (config : SocketConfig) (c : Connection) (numBytes : Nat)
    (finRsvOpcode : UInt8) : Connection :=
  readMessageContent config { c with streambuf := c.streambuf.drop numBytes }
    (ofBigEndian (c.streambuf.take numBytes)) finRsvOpcode

/-- `asio::transfer_exactly` of the read under way. -/
def need (c : Connection) : Option Nat :=
  match c.reading with
  | .firstBytes => some 2
  | .lengthBytes numBytes _ => some numBytes
  | .content length _ => some (sizeT (4 + length))
  | .ended => none

/-- What has been read is in the stream buffer when the handler is called. -/
def handle (config : SocketConfig) (c : Connection) (bytes : Bytes) : Connection :=
  let c := { c with streambuf := c.streambuf ++ bytes }
  match c.reading with
  | .firstBytes => handleFirstBytes config c
  | .lengthBytes numBytes finRsvOpcode => handleLengthBytes config c numBytes finRsvOpcode
  | .content length finRsvOpcode => c.handleContent length finRsvOpcode
  | .ended => c

/-- What a read can end with instead of its bytes. -/
inductive Failure where
  | error (ec : ErrorCode)
  /-- No error and no bytes; only the first read looks at `bytes_transferred`. -/
  | empty
  /-- `continue_lock` answers that the server is going away. -/
  | stopped

def fail (c : Connection) : Failure → Connection
  | .error ec => c.connectionError ec
  | .empty =>
      match c.reading with
      | .firstBytes => c.readMessage
      | _ => { c with reading := .ended, undefined := true }
  | .stopped => { c with reading := .ended }

def reader (config : SocketConfig) : AsyncRead.Reader Connection Failure where
  need := need
  handle := handle config
  fail := fail

end Connection

/-- `connection_open`, and the first `read_message`. -/
def Connection.opened : Connection := {}

/-! ## What a handler can do -/

/-- What is logged while the connection lasts. -/
def Effect.IsTalk : Effect → Prop
  | .send _ finRsvOpcode => finRsvOpcode &&& 0x0f = 10
  | .onMessage _ => True
  | .onPing => True
  | .onPong => True
  | .erase => False
  | .onClose _ _ => False
  | .onError _ => False

/-- The close frame of `send_close`. -/
def closeFrame (status : Nat) (reason : Bytes) : Effect :=
  .send (UInt8.ofNat (status >>> 8) :: UInt8.ofNat (status % 256) :: reason) 136

/-- What is logged when it ends. -/
inductive Ending : List Effect → Prop where
  | close (status : Nat) (reason : Bytes) :
      Ending [closeFrame status reason, .erase, .onClose status reason]
  | error (ec : ErrorCode) : Ending [.erase, .onError ec]
  | tooBig : Ending [.erase, .onError .messageSize, closeFrame 1009 (utf8 "message too big"),
      .erase, .onClose 1009 (utf8 "message too big")]
  /-- The server is going away, or a byte is missing. -/
  | silent : Ending []

/-- A handler goes on talking, or it ends the connection. -/
inductive Outcome (log : List Effect) (c : Connection) : Prop where
  | talks (effects : List Effect) (htalk : ∀ e ∈ effects, e.IsTalk) (hlog : c.log = log ++ effects)
      (hclosed : c.closed = false) (hreading : c.reading ≠ .ended)
  | ends (effects : List Effect) (hending : Ending effects) (hlog : c.log = log ++ effects)
      (hreading : c.reading = .ended)

namespace Connection

theorem sendClose_of_open {c : Connection} (h : c.closed = false) (status : Nat) (reason : Bytes) :
    c.sendClose status reason = { c with closed := true }.logged [closeFrame status reason] := by
  simp [sendClose, h, closeFrame]

theorem outcome_close {c : Connection} (h : c.closed = false) (status : Nat) (reason : Bytes) :
    Outcome c.log ((c.sendClose status reason).connectionClose status reason) := by
  refine Outcome.ends _ (Ending.close status reason) ?_ rfl
  rw [sendClose_of_open h]
  simp [connectionClose, logged]

theorem outcome_content (config : SocketConfig) {c : Connection} (h : c.closed = false)
    (length : Nat) (head : UInt8) : Outcome c.log (readMessageContent config c length head) := by
  unfold readMessageContent
  split
  · refine Outcome.ends _ Ending.tooBig ?_ rfl
    have hopen : (c.connectionError .messageSize).closed = false := h
    rw [sendClose_of_open hopen]
    simp [connectionClose, connectionError, logged]
  · exact Outcome.talks [] (by simp) (by simp) h (by simp)

/-- The opcode of a pong is that of a ping and one. -/
theorem pong_opcode {head : UInt8} (h : head &&& 0x0f = 9) : (head + 1) &&& 0x0f = 10 := by
  have hlow : ∀ b : UInt8, (b &&& 0x0f).toNat = b.toNat % 16 := by
    intro b
    rw [UInt8.toNat_and]
    exact Nat.and_two_pow_sub_one_eq_mod b.toNat 4
  have hping := congrArg UInt8.toNat h
  rw [hlow] at hping
  have hlt : head.toNat < 256 := head.toNat_lt
  apply UInt8.toNat_inj.mp
  rw [hlow, UInt8.toNat_add]
  simp only [UInt8.reduceToNat] at hping ⊢
  omega

theorem outcome_dispatch {c : Connection} (h : c.closed = false) (length : Nat) (head : UInt8)
    (m : InMessage) : Outcome c.log (c.dispatch length head m) := by
  unfold dispatch
  split
  · exact outcome_close h _ _
  · split
    · rename_i hping
      refine Outcome.talks _ ?_ rfl h (by simp [readMessage])
      intro e he
      rcases List.mem_cons.mp he with rfl | he
      · exact pong_opcode hping
      · rw [List.mem_singleton.mp he]
        trivial
    · split
      · refine Outcome.talks _ ?_ rfl h (by simp [readMessage])
        simp [Effect.IsTalk]
      · split
        · exact Outcome.talks [] (by simp) (by simp [readMessage]) h (by simp [readMessage])
        · refine Outcome.talks _ ?_ rfl h (by simp [readMessage])
          simp [Effect.IsTalk]

theorem keepFragmented_log (c : Connection) (head : UInt8) (m : InMessage) :
    (c.keepFragmented head m).log = c.log := by
  unfold keepFragmented
  split <;> rfl

theorem keepFragmented_streambuf (c : Connection) (head : UInt8) (m : InMessage) :
    (c.keepFragmented head m).streambuf = c.streambuf := by
  unfold keepFragmented
  split <;> rfl

theorem keepFragmented_closed (c : Connection) (head : UInt8) (m : InMessage) :
    (c.keepFragmented head m).closed = c.closed := by
  unfold keepFragmented
  split <;> rfl

theorem outcome_kept {c : Connection} (h : c.closed = false) (length : Nat) (head : UInt8)
    (m : InMessage) : Outcome c.log ((c.keepFragmented head m).dispatch length head m) := by
  have hclosed : (c.keepFragmented head m).closed = false := by
    rw [keepFragmented_closed]
    exact h
  have houtcome := outcome_dispatch hclosed length head m
  rw [keepFragmented_log] at houtcome
  exact houtcome

theorem outcome_handleContent {c : Connection} (h : c.closed = false) (length : Nat)
    (head : UInt8) : Outcome c.log (c.handleContent length head) := by
  unfold handleContent
  split
  · rename_i rest hbuf
    exact outcome_kept (c := { c with streambuf := rest.drop length }) h length head _
  · exact Outcome.ends [] Ending.silent (by simp) rfl

theorem outcome_handleFirstBytes (config : SocketConfig) {c : Connection} (h : c.closed = false) :
    Outcome c.log (handleFirstBytes config c) := by
  unfold handleFirstBytes
  split
  · rename_i first second rest hbuf
    dsimp only
    split
    · exact outcome_close (c := { c with streambuf := rest }) h _ _
    · split
      · exact Outcome.talks [] (by simp) (by simp) h (by simp)
      · split
        · exact Outcome.talks [] (by simp) (by simp) h (by simp)
        · exact outcome_content config (c := { c with streambuf := rest }) h _ first
  · exact Outcome.ends [] Ending.silent (by simp) rfl

/-- **What a completed read leads to**, whatever its bytes are. -/
theorem outcome_handle (config : SocketConfig) {c : Connection} (h : c.closed = false)
    (hreading : c.reading ≠ .ended) (bytes : Bytes) : Outcome c.log (handle config c bytes) := by
  unfold handle
  dsimp only
  split
  · exact outcome_handleFirstBytes config (c := { c with streambuf := c.streambuf ++ bytes }) h
  · exact outcome_content config (c := { c with
      streambuf := (c.streambuf ++ bytes).drop _ }) h _ _
  · exact outcome_handleContent (c := { c with streambuf := c.streambuf ++ bytes }) h _ _
  · rename_i hended
    exact absurd hended hreading

/-- What a failed one leads to. -/
theorem outcome_fail {c : Connection} (h : c.closed = false) (failure : Failure) :
    Outcome c.log (c.fail failure) := by
  cases failure with
  | error ec => exact Outcome.ends _ (Ending.error ec) rfl rfl
  | stopped => exact Outcome.ends [] Ending.silent (by simp [fail]) rfl
  | empty =>
      simp only [fail]
      split
      · exact Outcome.talks [] (by simp) (by simp [readMessage]) h (by simp [readMessage])
      · exact Outcome.ends [] Ending.silent (by simp) rfl

end Connection

end MobaDisplay
