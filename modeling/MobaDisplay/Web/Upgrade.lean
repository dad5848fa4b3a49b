import Mathlib.Computability.RegularExpressions
import MobaDisplay.Web.Session

/-!
# `SocketServerBase::upgrade`: from requests to messages

The http server hands a connection over with the request that asks for it, and the
websocket server answers the handshake: with the key hashed and encoded if the path is
that of an endpoint and there is a key, with a status if there is none, and not at all
on another path. Only when the answer has been written is the connection opened and
read again, for messages this time.

Nothing is read in between, so what a client sends meanwhile stays in the socket. What
the reads of the request took too much is in a stream buffer that nobody keeps.
-/

namespace MobaDisplay

open Cxx Transition AsyncRead

/-- `Crypto::sha1` and `Crypto::Base64::encode`. -/
structure Crypto where
  sha1 : Bytes → Bytes
  base64 : Bytes → Bytes

/-- A regular expression for one text. -/
def literal (text : Bytes) : RegularExpression UInt8 :=
  text.foldr (fun b r => .char b * r) 1

/-- `^/display/?$`; a match is a match of the whole path. -/
def displayRegex : RegularExpression UInt8 := literal (utf8 "/display") * (.char slash + 1)

/-- `SocketServerBase`, as far as the handshake uses it. -/
structure WsServer where
  crypto : Crypto
  multimap : Multimap
  /-- The order in which the fields of a map come. -/
  walk : Header → Header
  walk_perm : ∀ header, (walk header).Perm header
  endpoint : List (RegularExpression UInt8) := [displayRegex]
  /-- `config.header` -/
  header : Header := []
  config : SocketConfig := {}

/-- What a handshake comes to. -/
inductive Handshake where
  | unmatched
  /-- There is no key. -/
  | refused
  | accepted (key : Bytes)
  deriving DecidableEq

def wsMagicString : Bytes := utf8 "258EAFA5-E914-47DA-95CA-C5AB0DC85B11"

/-- `write_handshake`, up to the writing. -/
def writeHandshake (ws : WsServer) (request : RequestMessage) : Handshake :=
  if ws.endpoint.any fun regex => regex.rmatch request.path then
    match ws.multimap.find request.header (utf8 "Sec-WebSocket-Key") with
    | none => .refused
    | some key => .accepted key
  else .unmatched

/-- The fields of the answer to a key. -/
def responseHeader (ws : WsServer) (key : Bytes) : Header :=
  ws.header ++ [(utf8 "Upgrade", utf8 "websocket"), (utf8 "Connection", utf8 "Upgrade"),
    (utf8 "Sec-WebSocket-Accept", ws.crypto.base64 (ws.crypto.sha1 (key ++ wsMagicString)))]

/-- What is written in answer. -/
def Handshake.text (ws : WsServer) : Handshake → Bytes
  | .unmatched => []
  | .refused => utf8 "HTTP/1.1 426 Upgrade Required\r\n\r\n"
  | .accepted key =>
      utf8 "HTTP/1.1 101 Web Socket Protocol Handshake\r\n"
        ++ (ws.walk (responseHeader ws key)).flatMap writeField ++ utf8 "\r\n"

/-- Who has the socket. -/
inductive Holder where
  | http
  /-- The websocket server, while it answers a handshake. -/
  | handshake (handshake : Handshake)
  | websocket (connection : Connection)
  /-- Nobody; the last handler is gone. -/
  | nobody
  deriving DecidableEq

/-- A socket, and the two servers that use it one after the other. -/
structure Socket where
  http : HttpConnection := {}
  holder : Holder := .http
  received : Bytes := []
  /-- The answer to the handshake, as far as it has been begun. -/
  answer : Bytes := []
  deriving DecidableEq

namespace Socket

inductive Action where
  /-- A segment arrives. -/
  | arrive (bytes : Bytes)
  | http (a : HttpLink.Action)
  /-- The answer to the handshake has been written. -/
  | written
  | writeFailed (ec : ErrorCode)
  | writeStopped
  | websocket (e : Event Connection.Failure)

/-- `on_upgrade`, which the http server calls as soon as it has the request. -/
def upgrade (ws : WsServer) (s : Socket) : Socket :=
  match s.http.session with
  | .upgraded request =>
      match writeHandshake ws request with
      | .unmatched => { s with holder := .nobody }
      | handshake => { s with holder := .handshake handshake, answer := handshake.text ws }
  | _ => s

def httpStep (server : HttpServer) (ws : WsServer) (s : Socket) (a : HttpLink.Action) :
    Option Socket :=
  (HttpLink.step server ⟨s.http, s.received⟩ a).map fun link =>
    upgrade ws { s with http := link.connection, received := link.received }

def websocketStep (ws : WsServer) (s : Socket) (connection : Connection)
    (e : Event Connection.Failure) : Option Socket :=
  ((Connection.reader ws.config).step ⟨connection, s.received⟩ e).map fun link =>
    { s with holder := .websocket link.state, received := link.received }

def step (server : HttpServer) (ws : WsServer) (s : Socket) : Action → Option Socket
  | .arrive bytes => some { s with received := s.received ++ bytes }
  | .http a =>
      match s.holder, a with
      | .http, .arrive _ => none
      | .http, a => httpStep server ws s a
      | _, _ => none
  | .written =>
      match s.holder with
      | .handshake (.accepted _) => some { s with holder := .websocket .opened }
      | .handshake _ => some { s with holder := .nobody }
      | _ => none
  | .writeFailed ec =>
      match s.holder with
      | .handshake (.accepted _) =>
          some { s with holder := .websocket (({} : Connection).connectionError ec) }
      | .handshake _ => some { s with holder := .nobody }
      | _ => none
  | .writeStopped =>
      match s.holder with
      | .handshake _ => some { s with holder := .nobody }
      | _ => none
  | .websocket e =>
      match s.holder, e with
      | .websocket _, .arrive _ => none
      | .websocket connection, e => websocketStep ws s connection e
      | _, _ => none

def system (server : HttpServer) (ws : WsServer) : System Socket Action where
  init := fun s => s = {}
  step := step server ws

end Socket

end MobaDisplay
