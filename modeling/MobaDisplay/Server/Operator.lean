import MobaDisplay.Lib.Script
import MobaDisplay.Server.ResourceLoader

/-!
# `operator()`, statement by statement

`ResourceLoader.handle` says what a request is answered with where the operations
on an open stream throw nothing. Here the statements of the `try` block stand in
their order, each one able to throw, and the `catch` clause answers on top of what
was written before. What the stream operations throw is a parameter.
-/

namespace MobaDisplay

open Cxx Script

/-- What the operations on an open stream throw, if they throw. -/
structure StreamThrows where
  tellg : Ifstream → Option Cxx.Exception
  seekg : Ifstream → Option Cxx.Exception
  read : Ifstream → Option Cxx.Exception

/-- They throw nothing, as streams do by default. -/
structure StreamThrows.Never (throws : StreamThrows) : Prop where
  tellg : ∀ ifs, throws.tellg ifs = none
  seekg : ∀ ifs, throws.seekg ifs = none
  read : ∀ ifs, throws.read ifs = none

/-- Streams with their exceptions switched off. -/
def noThrows : StreamThrows := ⟨fun _ => none, fun _ => none, fun _ => none⟩

theorem noThrows_never : noThrows.Never := ⟨fun _ => rfl, fun _ => rfl, fun _ => rfl⟩

/-- What a call of `operator()` works on. -/
structure Call where
  loader : ResourceLoader
  response : Response
  /-- The response heads written so far. -/
  heads : List StatusCode

/-- A request as it comes in. -/
def Call.start (loader : ResourceLoader) : Call := ⟨loader, {}, []⟩

abbrev Statement := EStateM Cxx.Exception Call Unit

/-- An operation that throws, or nothing. -/
def raise : Option Cxx.Exception → Statement
  | none => pure ()
  | some e => throw e

/-- `response->write(status, content, header)`, which begins an answer. -/
def writeHead (status : StatusCode) (content : Bytes) (header : Header) : Statement :=
  modify fun call => { call with
    response := call.response.writeAnswer status content header
    heads := call.heads ++ [status] }

namespace ResourceLoader

/-- The statements of the `try` block once the stream is open. -/
def streamBlock (throws : StreamThrows) (ifs : Ifstream) : Statement := do
  raise (throws.tellg ifs)
  let length := ifs.tellg
  raise (throws.seekg ifs)
  let ifs := ifs.rewind
  writeHead .successOk [] [(utf8 "Content-Length", decimal length)]
  raise (throws.read ifs)
  modify fun call =>
    let (loader, response, _) := call.loader.readAndSend call.response ifs
    { call with loader := loader, response := response }

/-- The `try` block. -/
def tryBlock (throws : StreamThrows) (fs : FileSystem) (requestPath : Bytes) : Statement := do
  let call ← get
  let opened ← MonadExcept.ofExcept (openTarget fs call.loader.rootPath requestPath)
  streamBlock throws opened.2

/-- `operator()(response, request)` -/
def operator (throws : StreamThrows) (fs : FileSystem) (requestPath : Bytes) : Statement :=
  tryCatch (tryBlock throws fs requestPath) fun e =>
    writeHead .clientErrorBadRequest (errorText requestPath e) []

end ResourceLoader

/-! ## How a call ends -/

theorem raise_none (call : Call) : (raise none).run call = .ok () call := rfl

theorem writeHead_ok (status : StatusCode) (content : Bytes) (header : Header) (call : Call) :
    (writeHead status content header).run call
      = .ok () ⟨call.loader, call.response.writeAnswer status content header,
          call.heads ++ [status]⟩ := rfl

namespace ResourceLoader

variable {throws : StreamThrows} {fs : FileSystem} {requestPath : Bytes}

/-- **A request that fails before the stream is open** is answered by the `catch` clause alone. -/
theorem operator_error {call : Call} {e : Cxx.Exception}
    (h : openTarget fs call.loader.rootPath requestPath = .error e) :
    (operator throws fs requestPath).run call
      = .ok () ⟨call.loader,
          call.response.writeAnswer .clientErrorBadRequest (errorText requestPath e) [],
          call.heads ++ [.clientErrorBadRequest]⟩ := by
  have hopen : (MonadExcept.ofExcept (openTarget fs call.loader.rootPath requestPath) :
      EStateM Cxx.Exception Call (List Name × Ifstream)).run call = .error e call := by
    rw [h]
    exact ofExcept_error e call
  have hget : (get : EStateM Cxx.Exception Call Call).run call = .ok call call := rfl
  have htry : (tryBlock throws fs requestPath).run call = .error e call := by
    unfold tryBlock
    rw [bind_ok hget]
    exact bind_error hopen
  unfold operator
  rw [tryCatch_error htry]
  exact writeHead_ok _ _ _ _

theorem tryBlock_open {call : Call} {place : List Name} {ifs : Ifstream}
    (h : openTarget fs call.loader.rootPath requestPath = .ok (place, ifs)) :
    (tryBlock throws fs requestPath).run call = (streamBlock throws ifs).run call := by
  have hopen : (MonadExcept.ofExcept (openTarget fs call.loader.rootPath requestPath) :
      EStateM Cxx.Exception Call (List Name × Ifstream)).run call = .ok (place, ifs) call := by
    rw [h]
    exact ofExcept_ok (place, ifs) call
  have hget : (get : EStateM Cxx.Exception Call Call).run call = .ok call call := rfl
  unfold tryBlock
  rw [bind_ok hget]
  exact bind_ok hopen

/-- **A request whose stream is open** is answered by the stream alone, if that never throws. -/
theorem operator_ok {call : Call} {place : List Name} {ifs : Ifstream} (hnever : throws.Never)
    (h : openTarget fs call.loader.rootPath requestPath = .ok (place, ifs)) :
    (operator throws fs requestPath).run call
      = .ok () ⟨(call.loader.streamFile call.response ifs).1,
          (call.loader.streamFile call.response ifs).2.1, call.heads ++ [.successOk]⟩ := by
  have hstream : (streamBlock throws ifs).run call
      = .ok () ⟨(call.loader.streamFile call.response ifs).1,
          (call.loader.streamFile call.response ifs).2.1, call.heads ++ [.successOk]⟩ := by
    unfold streamBlock
    rw [hnever.tellg, bind_ok (raise_none call), hnever.seekg, bind_ok (raise_none call),
      bind_ok (writeHead_ok _ _ _ call), hnever.read, bind_ok (raise_none _)]
    rfl
  unfold operator
  exact tryCatch_ok ((tryBlock_open h).trans hstream)

/-- A `read` that throws leaves two heads: the `catch` clause writes after the first one. -/
theorem operator_read_throws {call : Call} {place : List Name} {ifs : Ifstream}
    {e : Cxx.Exception} (h : openTarget fs call.loader.rootPath requestPath = .ok (place, ifs))
    (htellg : throws.tellg ifs = none) (hseekg : throws.seekg ifs = none)
    (hread : throws.read ifs.rewind = some e) :
    (after (operator throws fs requestPath) call).heads
      = call.heads ++ [.successOk, .clientErrorBadRequest] := by
  have hstream : (streamBlock throws ifs).run call
      = .error e ⟨call.loader, call.response.writeAnswer .successOk []
          [(utf8 "Content-Length", decimal ifs.tellg)], call.heads ++ [.successOk]⟩ := by
    unfold streamBlock
    rw [htellg, bind_ok (raise_none call), hseekg, bind_ok (raise_none call),
      bind_ok (writeHead_ok _ _ _ call), hread]
    exact bind_error (throw_error e _)
  unfold operator
  rw [after, tryCatch_error ((tryBlock_open h).trans hstream), writeHead_ok]
  simp

/-- **Where the stream operations never throw**, a call is what `handle` says it is. -/
theorem operator_eq_handle (hnever : throws.Never) (loader : ResourceLoader) :
    (operator throws fs requestPath).run (Call.start loader)
      = .ok () ⟨(loader.handle fs requestPath).loader, (loader.handle fs requestPath).response,
          [(loader.handle fs requestPath).status]⟩ := by
  unfold handle
  cases h : openTarget fs loader.rootPath requestPath with
  | error e => exact operator_error h
  | ok opened =>
      obtain ⟨place, ifs⟩ := opened
      exact operator_ok hnever h

end ResourceLoader

end MobaDisplay
