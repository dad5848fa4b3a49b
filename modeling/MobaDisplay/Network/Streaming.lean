import MobaDisplay.Lib.Transition
import MobaDisplay.Server.ReadAndSend

/-!
# Concurrent transfers

Every GET request is handled by the one copy of the loader the server keeps, on
one thread: handlers run one after the other, in any order the completions of the
sends come in. A response lives as long as a callback in its queue holds it; when
the last one lets go, what is left in its buffer is sent.
-/

namespace MobaDisplay

open Cxx Transition

/-- Where a transfer is. -/
inductive Stage where
  /-- A send is in the queue; its callback is the next round. -/
  | sending
  /-- The last owner has let go: `send_on_delete` writes what was left. -/
  | releasing (rest : Bytes)
  | done

/-- A request that has opened its file. -/
structure Transfer where
  ifs : Ifstream
  response : Response
  stage : Stage
  /-- A write to the socket has ended with an error. -/
  failed : Bool

structure Streaming (ι : Type) where
  loader : ResourceLoader
  transfers : ι → Option Transfer

/--
What can happen next. `ec` is the error code of a write: `none` for success, and
otherwise how many bytes the socket had taken.
-/
inductive StreamAction (ι : Type) where
  /-- A GET request opens a file with these bytes. -/
  | get (i : ι) (file : Bytes)
  /-- The first send in the queue of a response completes. -/
  | complete (i : ι) (ec : Option Nat)
  /-- The write of `send_on_delete` completes. -/
  | release (i : ι) (ec : Option Nat)

/-- A handler has returned: with no send in the queue nothing holds the response any longer. -/
def Transfer.letGo (ifs : Ifstream) (response : Response) (failed : Bool) : Transfer :=
  match response.sendQueue with
  | [] => ⟨ifs, { response with streambuf := [] }, .releasing response.streambuf, failed⟩
  | _ :: _ => ⟨ifs, response, .sending, failed⟩

namespace Streaming

variable {ι : Type} [DecidableEq ι]

def start (loader : ResourceLoader) : Streaming ι := ⟨loader, fun _ => none⟩

def setTransfer (s : Streaming ι) (loader : ResourceLoader) (i : ι) (t : Transfer) : Streaming ι :=
  ⟨loader, fun j => if j = i then some t else s.transfers j⟩

def step (s : Streaming ι) : StreamAction ι → Option (Streaming ι)
  | .get i file =>
      match s.transfers i with
      | none =>
          let (loader, response, ifs) := s.loader.streamFile {} (.openAte file)
          some (s.setTransfer loader i (Transfer.letGo ifs response false))
      | some _ => none
  | .complete i ec =>
      match s.transfers i with
      | some ⟨ifs, response, .sending, failed⟩ =>
          match response.sendQueue, ec with
          | piece :: queue, none =>
              let taken := { response with socket := response.socket ++ piece, sendQueue := queue }
              let (loader, response, ifs) := s.loader.readAndSend taken ifs
              some (s.setTransfer loader i (Transfer.letGo ifs response failed))
          | piece :: _, some k =>
              -- every callback in the queue gets the error, and none goes on
              let taken := { response with socket := response.socket ++ piece.take k, sendQueue := [] }
              some (s.setTransfer s.loader i (Transfer.letGo ifs taken true))
          | [], _ => none
      | _ => none
  | .release i ec =>
      match s.transfers i with
      | some ⟨ifs, response, .releasing rest, failed⟩ =>
          match ec with
          | none =>
              let taken := { response with socket := response.socket ++ rest }
              some (s.setTransfer s.loader i ⟨ifs, taken, .done, failed⟩)
          | some k =>
              let taken := { response with socket := response.socket ++ rest.take k }
              some (s.setTransfer s.loader i ⟨ifs, taken, .done, true⟩)
      | _ => none

/-- The transfers of a loader that serves the files below a root. -/
def system (rootPath : Bytes) : System (Streaming ι) (StreamAction ι) where
  init := fun s => s = start (.make rootPath)
  step := step

theorem setTransfer_self (s : Streaming ι) (loader : ResourceLoader) (i : ι) (t : Transfer) :
    (s.setTransfer loader i t).transfers i = some t := if_pos rfl

theorem setTransfer_ne (s : Streaming ι) (loader : ResourceLoader) {i j : ι} (t : Transfer)
    (h : j ≠ i) : (s.setTransfer loader i t).transfers j = s.transfers j := if_neg h

/-! ## What each step does -/

/-- The buffer is out of the picture: a round hands on exactly what it read. -/
inductive Step (s : Streaming ι) : StreamAction ι → Streaming ι → Prop where
  | get {i : ι} {file : Bytes} (hnew : s.transfers i = none) :
      Step s (.get i file) (s.setTransfer (s.loader.fill ⟨file, 0, false⟩) i
        (Transfer.letGo (Ifstream.skip ⟨file, 0, false⟩ bufferSize)
          (ResourceLoader.sent (({} : Response).write (fileHead file.length))
            (Ifstream.chunk ⟨file, 0, false⟩ bufferSize)) false))
  | complete {i : ι} {ifs : Ifstream} {r : Response} {failed : Bool} {piece : Bytes}
      {queue : List Bytes} (ht : s.transfers i = some ⟨ifs, r, .sending, failed⟩)
      (hqueue : r.sendQueue = piece :: queue) :
      Step s (.complete i none) (s.setTransfer (s.loader.fill ifs) i
        (Transfer.letGo (ifs.skip bufferSize)
          (ResourceLoader.sent { r with socket := r.socket ++ piece, sendQueue := queue }
            (ifs.chunk bufferSize)) failed))
  | completeError {i : ι} {ifs : Ifstream} {r : Response} {failed : Bool} {piece : Bytes}
      {queue : List Bytes} {k : Nat} (ht : s.transfers i = some ⟨ifs, r, .sending, failed⟩)
      (hqueue : r.sendQueue = piece :: queue) :
      Step s (.complete i (some k)) (s.setTransfer s.loader i
        (Transfer.letGo ifs { r with socket := r.socket ++ piece.take k, sendQueue := [] } true))
  | release {i : ι} {ifs : Ifstream} {r : Response} {failed : Bool} {rest : Bytes}
      (ht : s.transfers i = some ⟨ifs, r, .releasing rest, failed⟩) :
      Step s (.release i none) (s.setTransfer s.loader i
        ⟨ifs, { r with socket := r.socket ++ rest }, .done, failed⟩)
  | releaseError {i : ι} {ifs : Ifstream} {r : Response} {failed : Bool} {rest : Bytes} {k : Nat}
      (ht : s.transfers i = some ⟨ifs, r, .releasing rest, failed⟩) :
      Step s (.release i (some k)) (s.setTransfer s.loader i
        ⟨ifs, { r with socket := r.socket ++ rest.take k }, .done, true⟩)

theorem step_cases {s s' : Streaming ι} {a : StreamAction ι} (h : step s a = some s') :
    Step s a s' := by
  cases a with
  | get i file =>
      simp only [step] at h
      split at h
      · rename_i hnew
        rw [ResourceLoader.streamFile_eq] at h
        exact Option.some.inj h ▸ Step.get hnew
      · exact absurd h (by simp)
  | complete i ec =>
      simp only [step] at h
      split at h
      · rename_i ifs r failed ht
        split at h
        · rename_i piece queue hqueue
          rw [ResourceLoader.readAndSend_eq] at h
          exact Option.some.inj h ▸ Step.complete ht hqueue
        · rename_i piece queue k hqueue
          exact Option.some.inj h ▸ Step.completeError ht hqueue
        · exact absurd h (by simp)
      · exact absurd h (by simp)
  | release i ec =>
      simp only [step] at h
      split at h
      · rename_i ifs r rest failed ht
        split at h
        · exact Option.some.inj h ▸ Step.release ht
        · exact Option.some.inj h ▸ Step.releaseError ht
      · exact absurd h (by simp)

end Streaming

end MobaDisplay
