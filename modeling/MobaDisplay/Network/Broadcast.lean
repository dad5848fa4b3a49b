import MobaDisplay.Network.MsgThread
import MobaDisplay.Web.Send

/-!
# The connections behind the broadcast

`a_connection->send(data)` puts the text into the send queue of the connection. Here
the server of `run` has these queues: handing a text to a connection is a `send` to
its queue, the handlers of the reading side send their answers through the same queue,
and the socket takes bytes, completes writes and fails as it likes. (It may do so at
any time here; the one io thread allows less.)
-/

namespace MobaDisplay

open Cxx Transition

structure Outgoing (ι : Type) where
  server : WebServer ι
  /-- The send queue of each connection. -/
  out : ι → OutQueue

namespace Outgoing

variable {ι : Type} [DecidableEq ι]

def start : Outgoing ι := ⟨WebServer.start, fun _ => {}⟩

/-- `fin_rsv_opcode` of `send(data)`: one fragment, text. -/
def text : UInt8 := 129

inductive Action (ι : Type) where
  | server (a : WebServer.Action ι)
  /-- A pong or a close frame. -/
  | reply (c : ι) (finRsvOpcode : UInt8) (message : Bytes)
  | transfer (c : ι) (i n : Nat)
  | complete (c : ι) (i : Nat)
  | fail (c : ι) (i : Nat) (ec : ErrorCode)
  | halt (c : ι)

/-- The texts a step of the server has handed to a connection. -/
def handedOver (s t : WebServer ι) (c : ι) : List Bytes :=
  (t.handed c).drop (s.handed c).length

def sendTexts (q : OutQueue) (texts : List Bytes) : OutQueue :=
  texts.foldl (fun q data => q.sendMessage text data) q

/-- One queue takes a step of its own. -/
def outStep (s : Outgoing ι) (c : ι) (e : SendQueue.Event WebSocket.Frame ErrorCode) :
    Option (Outgoing ι) :=
  ((s.out c).step e).map fun q => { s with out := fun d => if d = c then q else s.out d }

def step (s : Outgoing ι) : Action ι → Option (Outgoing ι)
  | .server a =>
      (WebServer.step s.server a).map fun t =>
        ⟨t, fun c => sendTexts (s.out c) (handedOver s.server t c)⟩
  | .reply c finRsvOpcode message =>
      if finRsvOpcode = text then none
      else s.outStep c (.send (outData (outFrame finRsvOpcode message)))
  | .transfer c i n => s.outStep c (.transfer i n)
  | .complete c i => s.outStep c (.complete i)
  | .fail c i ec => s.outStep c (.fail i ec)
  | .halt c => s.outStep c .halt

def system : System (Outgoing ι) (Action ι) where
  init := fun s => s = start
  step := step

/-- The texts in a row of frames. -/
def texts (fs : List WebSocket.Frame) : List Bytes :=
  (fs.filter fun f => f.head = text).map fun f => f.payload

/-- What the page behind a connection has received: the texts its socket has taken. -/
def heard (s : Outgoing ι) (c : ι) : List Bytes := texts (WebSocket.frames (s.out c).wire).1

end Outgoing

end MobaDisplay
