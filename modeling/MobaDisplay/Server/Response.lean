import MobaDisplay.Lib.CxxString

/-!
# `SimpleWeb::ServerBase::Response`

A response collects what is written to it in a stream buffer. `send` hands the
buffer to a queue and starts a new one; the queue is written to the socket in
order. What is still in the buffer when the last owner lets go is sent then.
-/

namespace MobaDisplay

open Cxx

/-- The status codes the resource loader answers with. -/
inductive StatusCode where
  | successOk
  | clientErrorBadRequest
  deriving DecidableEq

/-- `SimpleWeb::status_code` -/
def StatusCode.text : StatusCode → Bytes
  | successOk => utf8 "200 OK"
  | clientErrorBadRequest => utf8 "400 Bad Request"

/-- The fields of a `CaseInsensitiveMultimap`. -/
abbrev Header := List (Bytes × Bytes)

/-- `tolower` in the C locale. -/
def tolower (b : UInt8) : UInt8 := if 65 ≤ b && b ≤ 90 then b + 32 else b

/-- `case_insensitive_equal` -/
def caseInsensitiveEqual (s t : Bytes) : Bool :=
  s.length == t.length && s.map tolower == t.map tolower

def writeField (field : Bytes × Bytes) : Bytes :=
  field.1 ++ utf8 ": " ++ field.2 ++ utf8 "\r\n"

/-- `write_header`, on a connection that stays open: with a length, unless there is one. -/
def writeHeader (header : Header) (size : Nat) : Bytes :=
  let contentLengthWritten := header.any fun f => caseInsensitiveEqual f.1 (utf8 "content-length")
  let chunkedTransferEncoding := header.any fun f =>
    caseInsensitiveEqual f.1 (utf8 "transfer-encoding") && caseInsensitiveEqual f.2 (utf8 "chunked")
  header.flatMap writeField
    ++ if !contentLengthWritten && !chunkedTransferEncoding then
        utf8 "Content-Length: " ++ decimal size ++ utf8 "\r\n\r\n"
      else
        utf8 "\r\n"

/-- Status line, header and content. -/
def answerText (status : StatusCode) (content : Bytes) (header : Header) : Bytes :=
  utf8 "HTTP/1.1 " ++ status.text ++ utf8 "\r\n" ++ writeHeader header content.length ++ content

structure Response where
  /-- Written and not handed to a send yet. -/
  streambuf : Bytes := []
  /-- The sends on their way; the first one is being written to the socket. -/
  sendQueue : List Bytes := []
  /-- What the socket has taken. -/
  socket : Bytes := []
  /-- Everything written so far. -/
  written : Bytes := []

namespace Response

/-- `write(ptr, n)` -/
def write (r : Response) (bytes : Bytes) : Response :=
  { r with streambuf := r.streambuf ++ bytes, written := r.written ++ bytes }

/-- `write(status_code, content, header)` -/
def writeAnswer (r : Response) (status : StatusCode) (content : Bytes) (header : Header) :
    Response :=
  r.write (answerText status content header)

/-- `send(callback)`; the callback is that of the code that sends. -/
def send (r : Response) : Response :=
  { r with streambuf := [], sendQueue := r.sendQueue ++ [r.streambuf] }

@[simp] theorem write_nil (r : Response) : r.write [] = r := by
  simp [write]

@[simp] theorem write_sendQueue (r : Response) (bytes : Bytes) :
    (r.write bytes).sendQueue = r.sendQueue := rfl

@[simp] theorem write_socket (r : Response) (bytes : Bytes) :
    (r.write bytes).socket = r.socket := rfl

@[simp] theorem write_written (r : Response) (bytes : Bytes) :
    (r.write bytes).written = r.written ++ bytes := rfl

@[simp] theorem write_streambuf (r : Response) (bytes : Bytes) :
    (r.write bytes).streambuf = r.streambuf ++ bytes := rfl

@[simp] theorem send_sendQueue (r : Response) :
    r.send.sendQueue = r.sendQueue ++ [r.streambuf] := rfl

@[simp] theorem send_socket (r : Response) : r.send.socket = r.socket := rfl

@[simp] theorem send_written (r : Response) : r.send.written = r.written := rfl

@[simp] theorem send_streambuf (r : Response) : r.send.streambuf = [] := rfl

end Response

/-- The head of a file's answer. -/
def fileHead (length : Int) : Bytes :=
  utf8 "HTTP/1.1 200 OK\r\nContent-Length: " ++ decimal length ++ utf8 "\r\n\r\n"

/-- A header that has a length gets no second one. -/
theorem answerText_contentLength (length : Int) :
    answerText .successOk [] [(utf8 "Content-Length", decimal length)] = fileHead length := by
  have hname : caseInsensitiveEqual (utf8 "Content-Length") (utf8 "content-length") = true := by
    decide +kernel
  have hhead : utf8 "HTTP/1.1 200 OK\r\nContent-Length: "
      = utf8 "HTTP/1.1 " ++ utf8 "200 OK" ++ utf8 "\r\n"
        ++ (utf8 "Content-Length" ++ utf8 ": ") := by
    decide +kernel
  have hend : utf8 "\r\n\r\n" = utf8 "\r\n" ++ utf8 "\r\n" := by decide +kernel
  rw [answerText, writeHeader, fileHead, hhead, hend]
  simp [writeField, hname, StatusCode.text]

/-- **The content of an answer can be read off it**, after the length in the header. -/
theorem answerText_inj {status : StatusCode} {content content' : Bytes}
    (h : answerText status content [] = answerText status content' []) : content = content' := by
  have hcrlf : utf8 "\r\n\r\n" = 13 :: utf8 "\n\r\n" := by decide +kernel
  have htext : ∀ c : Bytes, answerText status c []
      = (utf8 "HTTP/1.1 " ++ status.text ++ utf8 "\r\n" ++ utf8 "Content-Length: ")
        ++ (decimal c.length ++ 13 :: (utf8 "\n\r\n" ++ c)) := by
    intro c
    simp [answerText, writeHeader, hcrlf]
  rw [htext, htext] at h
  have hlength := List.append_cancel_left h
  -- a length is written without a carriage return
  have hdigits : ∀ n : Nat, (13 : UInt8) ∉ decimal n :=
    fun n => not_mem_decimal n (by decide) (by decide)
  obtain ⟨_, hrest⟩ := split_unique (hdigits _) (hdigits _) hlength
  exact List.append_cancel_left hrest

end MobaDisplay
