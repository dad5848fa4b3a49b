import MobaDisplay.Server.FileSystem
import MobaDisplay.Web.QueryString

/-!
# `HttpHeader::parse`, `RequestMessage::parse` and `ResponseMessage::parse`

The parsers read lines from a stream and cut them at positions they searched for.
They are `noexcept`: a cut out of range would end the program, so what they throw is
kept here. A header is the list of its fields in the order they were found; which of
several fields of one name `find` answers with is not said by its documentation.
-/

namespace MobaDisplay

open Cxx

def colon : UInt8 := 58

def questionMark : UInt8 := 63

namespace HttpHeader

/-- Where a value begins: blanks are skipped, but never the last byte of the line. -/
def valueStart (line : Bytes) (pos : Nat) : Nat :=
  pos + min ((line.drop pos).takeWhile (· == blank)).length (line.length - 1 - pos)

/-- The field of a line with its colon at `paramEnd`. -/
def field (line : Bytes) (paramEnd : Nat) : Except Exception (Option (Bytes × Bytes)) := do
  let start := valueStart line (paramEnd + 1)
  if start < line.length then
    let name ← substr line 0 paramEnd
    let cut := if line.getLast? = some carriageReturn then 1 else 0
    let value ← substr line start (sizeSub (sizeSub line.length start) cut)
    return some (name, value)
  else
    return none

/-- The loop; a line is at least one byte of the stream. -/
def parseLoop : Nat → Bytes → Except Exception (Header × Bytes)
  | 0, stream => return ([], stream)
  | n + 1, stream =>
      match getline stream with
      | none => return ([], stream)
      | some (line, rest) =>
          match find line colon 0 with
          | none => return ([], rest)
          | some paramEnd => do
              let found ← field line paramEnd
              let (fields, rest) ← parseLoop n rest
              return (found.toList ++ fields, rest)

/-- `HttpHeader::parse(stream)`: the fields, and what is left of the stream. -/
def parse (stream : Bytes) : Except Exception (Header × Bytes) := parseLoop stream.length stream

end HttpHeader

/-- What `RequestMessage::parse` fills in. -/
structure RequestMessage where
  method : Bytes
  path : Bytes
  queryString : Bytes
  version : Bytes
  header : Header
  deriving DecidableEq

namespace RequestMessage

/-- `request->parse_query_string()` -/
def parseQueryString (request : RequestMessage) : Except Exception Header :=
  QueryString.parse request.queryString

/-- The loop over the request target, from position `i`: `query_start`, and its end. -/
def scan : Bytes → Nat → Option Nat → Option Nat × Option Nat
  | [], _, queryStart => (queryStart, none)
  | b :: s, i, queryStart =>
      if b = questionMark ∧ s ≠ [] ∧ queryStart = none then scan s (i + 1) (some (i + 1))
      else if b = blank then (queryStart, some i)
      else scan s (i + 1) queryStart

/-- Path and query string, out of the target that ends at `targetEnd`. -/
def cutTarget (line : Bytes) (methodEnd targetEnd : Nat) :
    Option Nat → Except Exception (Bytes × Bytes)
  | some queryStart => do
      let path ← substr line (methodEnd + 1) (sizeSub (sizeSub queryStart methodEnd) 2)
      let queryString ← substr line queryStart (sizeSub targetEnd queryStart)
      return (path, queryString)
  | none => do
      let path ← substr line (methodEnd + 1) (sizeSub (sizeSub targetEnd methodEnd) 1)
      return (path, [])

/-- `RequestMessage::parse(stream, ...)`; nothing is found where it returns `false`. -/
def parse (stream : Bytes) : Except Exception (Option RequestMessage × Bytes) :=
  match getline stream with
  | none => return (none, stream)
  | some (line, rest) =>
      match find line blank 0 with
      | none => return (none, rest)
      | some methodEnd => do
          let method ← substr line 0 methodEnd
          match scan (line.drop (methodEnd + 1)) (methodEnd + 1) none with
          | (_, none) => return (none, rest)
          | (queryStart, some pathAndQueryStringEnd) =>
              let (path, queryString) ←
                cutTarget line methodEnd pathAndQueryStringEnd queryStart
              match find line slash (pathAndQueryStringEnd + 1) with
              | none => return (none, rest)
              | some protocolEnd =>
                  let protocol ← substr line (pathAndQueryStringEnd + 1)
                    (sizeSub (sizeSub protocolEnd pathAndQueryStringEnd) 1)
                  if protocol ≠ utf8 "HTTP" then
                    return (none, rest)
                  let version ← substr line (protocolEnd + 1)
                    (sizeSub (sizeSub line.length protocolEnd) 2)
                  let (header, rest) ← HttpHeader.parse rest
                  return (some ⟨method, path, queryString, version, header⟩, rest)

end RequestMessage

namespace ResponseMessage

/-- `ResponseMessage::parse(stream, ...)`: version, status code and header. -/
def parse (stream : Bytes) : Except Exception (Option (Bytes × Bytes × Header) × Bytes) :=
  match getline stream with
  | none => return (none, stream)
  | some (line, rest) =>
      match find line blank 0 with
      | none => return (none, rest)
      | some versionEnd =>
          if 5 < line.length then do
            let version ← substr line 5 (sizeSub versionEnd 5)
            if versionEnd + 1 < line.length then
              let cut := if line.getLast? = some carriageReturn then 1 else 0
              let statusCode ← substr line (versionEnd + 1)
                (sizeSub (sizeSub line.length (versionEnd + 1)) cut)
              let (header, rest) ← HttpHeader.parse rest
              return (some (version, statusCode, header), rest)
            else
              return (none, rest)
          else
            return (none, rest)

end ResponseMessage

end MobaDisplay
