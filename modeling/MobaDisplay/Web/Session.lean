import MobaDisplay.Lib.CxxUnsigned
import MobaDisplay.Lib.Streambuf
import MobaDisplay.Lib.Transition
import MobaDisplay.Web.ReadMessage
import MobaDisplay.Web.RequestMessage

/-!
# `SimpleWeb::ServerBase`: reading requests

`read` waits for a header and parses it. The content follows in one piece of known
length or in chunks, or there is none. `find_resource` hands the connection over to the
websocket server, calls the resource function of the method, or does nothing. When the
response has been written the connection is read again, with a new stream buffer, or
given up.

Reads that wait for a delimiter may take more than that. What they took too much stays
in the stream buffer of the request, or in that of the chunk sizes.
-/

namespace MobaDisplay

open Cxx Streambuf Transition

/--
`std::unordered_multimap` with keys that are compared without case: which values a key
has. Their order is not said; `find` answers with the first.
-/
structure Multimap where
  equalRange : Header → Bytes → List Bytes
  perm : ∀ header name, (equalRange header name).Perm
    ((header.filter fun f => caseInsensitiveEqual f.1 name).map Prod.snd)

def Multimap.find (m : Multimap) (header : Header) (name : Bytes) : Option Bytes :=
  (m.equalRange header name).head?

/-- The values in the order they were written. -/
def Multimap.inOrder : Multimap where
  equalRange := fun header name =>
    (header.filter fun f => caseInsensitiveEqual f.1 name).map Prod.snd
  perm := fun _ _ => List.Perm.refl _

/-- What requests are read with; the program sets no resource but the default ones. -/
structure HttpServer where
  multimap : Multimap
  maxRequestStreambufSize : Nat := 2 ^ 64 - 1
  onUpgrade : Bool := true
  /-- The methods that have a default resource. -/
  defaultResource : List Bytes := [utf8 "GET"]

/-- The program's server. -/
def httpServer : HttpServer := { multimap := .inOrder }

/-- What a session does outside it. -/
inductive HttpEffect where
  /-- The resource function is called; `content` is what `request->content` holds. -/
  | resource (request : RequestMessage) (content : Bytes)
  | upgrade (request : RequestMessage)
  | onError (ec : ErrorCode)
  deriving DecidableEq

/-- What a session is waiting for. -/
inductive Session where
  | header (streambuf : Bytes)
  | content (request : RequestMessage) (streambuf : Bytes) (missing : Nat)
  | chunkSize (request : RequestMessage) (streambuf chunkSizeStreambuf : Bytes) (maxSize : Nat)
  | chunk (request : RequestMessage) (streambuf chunkSizeStreambuf : Bytes)
      (maxSize missing : Nat)
  /-- The line end of a chunk; its bytes are thrown away. -/
  | chunkEnd (request : RequestMessage) (streambuf chunkSizeStreambuf : Bytes)
      (maxSize missing : Nat)
  /-- The response is being written. -/
  | responding (request : RequestMessage)
  /-- The websocket server has the socket. -/
  | upgraded (request : RequestMessage)
  | ended
  deriving DecidableEq

structure HttpConnection where
  session : Session := .header []
  log : List HttpEffect := []
  /-- Something was thrown out of a `noexcept` function. -/
  terminated : Bool := false
  deriving DecidableEq

namespace HttpConnection

def logged (c : HttpConnection) (e : HttpEffect) (session : Session) : HttpConnection :=
  { c with session := session, log := c.log ++ [e] }

/-- The session ends with an error. -/
def error (c : HttpConnection) (ec : ErrorCode) : HttpConnection := c.logged (.onError ec) .ended

/-- `find_resource` -/
def findResource (server : HttpServer) (c : HttpConnection) (request : RequestMessage)
    (content : Bytes) : HttpConnection :=
  if server.onUpgrade && (server.multimap.find request.header (utf8 "Upgrade")).isSome then
    c.logged (.upgrade request) (.upgraded request)
  else if request.method ∈ server.defaultResource then
    c.logged (.resource request content) (.responding request)
  else
    { c with session := .ended }

/-- The content behind a header, of which `streambuf` is there. -/
def readContent (server : HttpServer) (c : HttpConnection) (request : RequestMessage)
    (streambuf : Bytes) (numAdditionalBytes : Nat) : HttpConnection :=
  match server.multimap.find request.header (utf8 "Content-Length") with
  | some value =>
      match stoull value with
      | none => c.error .protocolError
      | some contentLength =>
          if contentLength > server.maxRequestStreambufSize then c.error .messageSize
          else if contentLength > numAdditionalBytes then
            { c with session := .content request streambuf (contentLength - numAdditionalBytes) }
          else findResource server c request streambuf
  | none =>
      if server.multimap.find request.header (utf8 "Transfer-Encoding") = some (utf8 "chunked") then
        { c with session := .chunkSize request [] streambuf (max 18 streambuf.length) }
      else findResource server c request streambuf

/-- The handler of `read`. -/
def handleHeader (server : HttpServer) (c : HttpConnection) (streambuf : Bytes) :
    HttpConnection :=
  match indexOf (crlf ++ crlf) streambuf with
  | none => c
  | some i =>
      let bytesTransferred := i + 4
      let numAdditionalBytes := sizeSub streambuf.length bytesTransferred
      match RequestMessage.parse streambuf with
      | .error _ => { c with session := .ended, terminated := true }
      | .ok (none, _) => c.error .protocolError
      | .ok (some request, rest) => readContent server c request rest numAdditionalBytes

/-- The handler of `read_chunked_transfer_encoded`. -/
def handleChunkSize (server : HttpServer) (c : HttpConnection) (request : RequestMessage)
    (streambuf chunkSizeStreambuf : Bytes) (maxSize : Nat) : HttpConnection :=
  match indexOf crlf chunkSizeStreambuf, getline chunkSizeStreambuf with
  | some i, some (line, rest) =>
      let bytesTransferred := sizeSub (i + 2) (line.length + 1)
      match stoul16 line with
      | none => c.error .protocolError
      | some chunkSize =>
          if chunkSize = 0 then findResource server c request streambuf
          else if sizeT (chunkSize + streambuf.length) > server.maxRequestStreambufSize then
            c.error .messageSize
          else
            let numAdditionalBytes := sizeSub rest.length bytesTransferred
            let bytesToMove := min chunkSize numAdditionalBytes
            let streambuf := streambuf ++ rest.take bytesToMove
            let rest := rest.drop bytesToMove
            if chunkSize > numAdditionalBytes then
              { c with
                session := .chunk request streambuf rest maxSize (chunkSize - numAdditionalBytes) }
            else if sizeT (2 + chunkSize) > numAdditionalBytes then
              let missing := sizeSub (sizeT (2 + chunkSize)) numAdditionalBytes
              -- the carriage return is there already
              let rest := if missing = 1 then rest.drop 1 else rest
              { c with session := .chunkEnd request streambuf rest maxSize missing }
            else
              { c with session := .chunkSize request streambuf (rest.drop 2) maxSize }
  | _, _ => c

/-- The read under way. -/
def wait (server : HttpServer) : Session → Option Wait
  | .header streambuf =>
      some (.readUntil streambuf (crlf ++ crlf) server.maxRequestStreambufSize)
  | .content _ _ missing => some (.readExactly missing)
  | .chunkSize _ _ chunkSizeStreambuf maxSize => some (.readUntil chunkSizeStreambuf crlf maxSize)
  | .chunk _ _ _ _ missing => some (.readExactly missing)
  | .chunkEnd _ _ _ _ missing => some (.readExactly missing)
  | .responding _ => none
  | .upgraded _ => none
  | .ended => none

/-- The handler of the read under way. -/
def handle (server : HttpServer) (c : HttpConnection) (bytes : Bytes) : HttpConnection :=
  match c.session with
  | .header streambuf => handleHeader server c (streambuf ++ bytes)
  | .content request streambuf _ => findResource server c request (streambuf ++ bytes)
  | .chunkSize request streambuf chunkSizeStreambuf maxSize =>
      handleChunkSize server c request streambuf (chunkSizeStreambuf ++ bytes) maxSize
  | .chunk request streambuf chunkSizeStreambuf maxSize _ =>
      { c with session := .chunkEnd request (streambuf ++ bytes) chunkSizeStreambuf maxSize 2 }
  | .chunkEnd request streambuf chunkSizeStreambuf maxSize _ =>
      { c with session := .chunkSize request streambuf chunkSizeStreambuf maxSize }
  | _ => c

/-- The loop over the `Connection` fields, and the version if none of them decides. -/
def keepsAlive (version : Bytes) : List Bytes → Bool
  | [] => !decide (version < utf8 "1.1")
  | value :: values =>
      if caseInsensitiveEqual value (utf8 "close") then false
      else if caseInsensitiveEqual value (utf8 "keep-alive") then true
      else keepsAlive version values

/-- The response has been written: `read` with a new session, or nothing. -/
def responded (server : HttpServer) (c : HttpConnection) (request : RequestMessage) :
    HttpConnection :=
  if keepsAlive request.version
      (server.multimap.equalRange request.header (utf8 "Connection")) then
    { c with session := .header [] }
  else
    { c with session := .ended }

end HttpConnection

/-- A connection and what has arrived for it. -/
structure HttpLink where
  connection : HttpConnection := {}
  received : Bytes := []
  deriving DecidableEq

namespace HttpLink

inductive Action where
  /-- A segment arrives. -/
  | arrive (bytes : Bytes)
  /-- The read under way completes with this many bytes. -/
  | complete (n : Nat)
  /-- The response has been written. -/
  | responded
  /-- The read, or the write, fails. -/
  | fail (ec : ErrorCode)
  /-- `continue_lock` answers that the server is going away. -/
  | stop

def complete (server : HttpServer) (x : HttpLink) (n : Nat) : Option HttpLink :=
  match HttpConnection.wait server x.connection.session with
  | none => none
  | some w =>
      if n ≤ x.received.length ∧ w.accepts (x.received.take n) then
        some ⟨HttpConnection.handle server x.connection (x.received.take n), x.received.drop n⟩
      else none

/-- Whether a handler will be called. -/
def pending (server : HttpServer) (x : HttpLink) : Bool :=
  match x.connection.session with
  | .responding _ => true
  | session => (HttpConnection.wait server session).isSome

def step (server : HttpServer) (x : HttpLink) : Action → Option HttpLink
  | .arrive bytes => some { x with received := x.received ++ bytes }
  | .complete n => complete server x n
  | .responded =>
      match x.connection.session with
      | .responding request =>
          some { x with connection := x.connection.responded server request }
      | _ => none
  | .fail ec =>
      if x.pending server then some { x with connection := x.connection.error ec } else none
  | .stop =>
      if x.pending server then
        some { x with connection := { x.connection with session := .ended } }
      else none

def system (server : HttpServer) : System HttpLink Action where
  init := fun x => x = {}
  step := step server

end HttpLink

end MobaDisplay
