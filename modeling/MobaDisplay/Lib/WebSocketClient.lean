import MobaDisplay.Lib.WebSocketFrame

/-!
# What a websocket client says

A client sends messages and signals. A message is one frame or a row of fragments,
the first with the opcode and the last with the final flag; signals may stand between
the fragments. Every frame is masked, with a mask of its own.

`Said` is one of these, with the bytes it is about, and `Said.frames` are its frames.
-/

namespace WebSocket

open Cxx (Bytes)

/-- The payload of a frame and the mask it travels under. -/
structure Part where
  mask : Mask
  payload : Bytes
  /-- Mask and payload together have a 64-bit length. -/
  fits : payload.length + 4 < 2 ^ 64

def Part.frame (p : Part) (head : UInt8) : Frame := ⟨head, some p.mask, p.payload⟩

inductive Kind where
  | text
  | binary
  deriving DecidableEq

def Kind.opcode : Kind → UInt8
  | text => 1
  | binary => 2

inductive Signal where
  | ping
  | pong
  deriving DecidableEq

def Signal.opcode : Signal → UInt8
  | ping => 9
  | pong => 10

/-- What may come between the first and the last fragment of a message. -/
inductive Piece where
  | signal (s : Signal) (p : Part)
  | part (p : Part)

namespace Piece

def frame : Piece → Frame
  | signal s p => p.frame (0x80 ||| s.opcode)
  | part p => p.frame 0

/-- What it adds to the message. -/
def payload : Piece → Bytes
  | signal _ _ => []
  | part p => p.payload

end Piece

inductive Said where
  | signal (s : Signal) (p : Part)
  | whole (k : Kind) (p : Part)
  | pieces (k : Kind) (first : Part) (middle : List Piece) (last : Part)

namespace Said

def frames : Said → List Frame
  | signal s p => [p.frame (0x80 ||| s.opcode)]
  | whole k p => [p.frame (0x80 ||| k.opcode)]
  | pieces k first middle last =>
      first.frame k.opcode :: (middle.map Piece.frame ++ [last.frame 0x80])

/-- The content of a message. -/
def content : Said → Option (Kind × Bytes)
  | signal _ _ => none
  | whole k p => some (k, p.payload)
  | pieces k first middle last =>
      some (k, first.payload ++ middle.flatMap Piece.payload ++ last.payload)

end Said

/-- The bytes of a client that says these things one after the other. -/
def encodeSaid (said : List Said) : Bytes := (said.flatMap Said.frames).flatMap Frame.encode

/-- A message the client has begun and not finished. -/
structure Begun where
  kind : Kind
  first : Part
  middle : List Piece

def Begun.frames (b : Begun) : List Frame :=
  b.first.frame b.kind.opcode :: b.middle.map Piece.frame

/-- How a client ends a connection: it closes it, or breaks the rule that it masks. -/
inductive Goodbye where
  | close (p : Part)
  | unmasked (head : UInt8) (payload : Bytes) (fits : payload.length < 256 ^ 8)

def Goodbye.frame : Goodbye → Frame
  | close p => p.frame 0x88
  | unmasked head payload _ => ⟨head, none, payload⟩

/-- All that a client says, up to its last frame. -/
def encodeFarewell (said : List Said) (begun : Option Begun) (goodbye : Goodbye) : Bytes :=
  encodeSaid said
    ++ ((begun.map Begun.frames).getD [] ++ [goodbye.frame]).flatMap Frame.encode

end WebSocket
