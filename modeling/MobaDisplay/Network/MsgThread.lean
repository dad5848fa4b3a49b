import MobaDisplay.Lib.Hub
import MobaDisplay.Lib.Transition
import MobaDisplay.Server.OnMessage

/-!
# The message thread and the io thread

`WebServer::run` starts a thread that receives messages from the control system.
For each it posts a task to the io service and waits until the task has run. The
task captures the variables of the loop body by reference: what it sends is what
`data` is when it runs, if `data` still lives then.

The io thread runs the tasks, and the handlers that insert and erase connections,
one at a time. A task is a loop over a copy of the set, in the order of a hash
table; the message thread may do something between any two of its rounds.
-/

namespace MobaDisplay

open Cxx Transition

/-- The variables of one round of the inner loop. -/
structure Locals where
  /-- Which round they belong to. -/
  round : Nat
  /-- `data`, once `waitForNewMsgAsString` has returned. -/
  data : Option Bytes
  /-- Whether `promise.set_value()` was called. -/
  promise : Bool
  deriving DecidableEq

/-- Where the message thread is. -/
inductive ThreadState where
  | connecting
  /-- In `waitForNewMsgAsString`. -/
  | receiving
  /-- Behind it, and in front of `post`. -/
  | received
  /-- In `promise.get_future().wait()`. -/
  | waiting
  | sleeping
  deriving DecidableEq

/--
A posted task. It holds references only; the round that posted it and the text it
was posted for are there to be compared with what it finds.
-/
structure Task where
  round : Nat
  text : Bytes
  deriving DecidableEq

/-- What the io thread is doing. -/
inductive IoState (ι : Type) where
  | idle
  /-- In the loop of a task, with these connections to go. -/
  | broadcasting (task : Task) (rest : List ι)

structure WebServer (ι : Type) where
  thread : ThreadState
  /-- The variables of the round, as long as it lasts. -/
  locals : Option Locals
  /-- How many rounds have begun. -/
  rounds : Nat
  /-- The tasks posted to the io service. -/
  queue : List Task
  io : IoState ι
  /-- `wsEndpoint`'s connections. -/
  connections : List ι
  /-- The texts handed to `send` of each connection. -/
  handed : ι → List Bytes
  /-- The texts `waitForNewMsgAsString` returned. -/
  returned : List Bytes
  /-- The connections that came and went, and the broadcasts. -/
  history : List (Hub.Event ι Bytes)
  /-- A variable was used that does not live any longer. -/
  undefined : Bool
  /-- An exception got past the `catch` clause. -/
  terminated : Bool

namespace WebServer

variable {ι : Type} [DecidableEq ι]

def start : WebServer ι :=
  ⟨.connecting, none, 0, [], .idle, [], fun _ => [], [], [], false, false⟩

inductive Action (ι : Type) where
  /-- `endpoint->connect()` returns or throws. -/
  | connect (thrown : Option Thrown)
  /-- `waitForNewMsgAsString()` returns. -/
  | receive (data : Bytes)
  /-- It throws. -/
  | receiveThrows (thrown : Thrown)
  | post
  /-- The future is ready: the round is over, and the next one begins. -/
  | wake
  /-- The four seconds are over. -/
  | retry
  /-- The io thread takes the oldest task and copies the set. -/
  | begin (order : List ι)
  /-- `a_connection->send(data)` for the next connection. -/
  | send
  /-- `promise.set_value()` -/
  | finish
  /-- `connection_open` -/
  | connectionOpen (c : ι)
  /-- `connection_close`, or `connection_error`. -/
  | connectionClose (c : ι)

/-- A round begins with a fresh promise. -/
def beginRound (s : WebServer ι) : WebServer ι :=
  { s with thread := .receiving, locals := some ⟨s.rounds, none, false⟩, rounds := s.rounds + 1 }

/-- The `catch` clause; what is no `std::exception` ends the program. -/
def catchException (s : WebServer ι) : Thrown → WebServer ι
  | .std _ => { s with thread := .sleeping, locals := none }
  | .foreign => { s with locals := none, terminated := true }

/-- What the message thread does. -/
def threadStep (s : WebServer ι) : Action ι → Option (WebServer ι)
  | .connect thrown =>
      if s.thread = .connecting then
        match thrown with
        | none => some s.beginRound
        | some e => some (s.catchException e)
      else none
  | .receive data =>
      match s.thread, s.locals with
      | .receiving, some v =>
          some { s with
            thread := .received
            locals := some { v with data := some data }
            returned := s.returned ++ [data] }
      | _, _ => none
  | .receiveThrows e =>
      if s.thread = .receiving then some (s.catchException e) else none
  | .post =>
      match s.thread, s.locals with
      | .received, some ⟨round, some text, _⟩ =>
          some { s with thread := .waiting, queue := s.queue ++ [⟨round, text⟩] }
      | _, _ => none
  | .wake =>
      match s.thread, s.locals with
      | .waiting, some ⟨_, _, true⟩ => some s.beginRound
      | _, _ => none
  | .retry =>
      if s.thread = .sleeping then some { s with thread := .connecting } else none
  | _ => none

/-- What the io thread does. -/
def ioStep (s : WebServer ι) : Action ι → Option (WebServer ι)
  | .begin order =>
      match s.io, s.queue with
      | .idle, task :: queue =>
          if order.Perm s.connections then
            some { s with
              io := .broadcasting task order
              queue := queue
              history := s.history ++ [.send task.text] }
          else none
      | _, _ => none
  | .send =>
      match s.io with
      | .broadcasting task (c :: rest) =>
          -- `data` is a reference
          match s.locals with
          | some ⟨_, some text, _⟩ =>
              some { s with
                io := .broadcasting task rest
                handed := fun d => if d = c then s.handed c ++ [text] else s.handed d }
          | _ => some { s with undefined := true }
      | _ => none
  | .finish =>
      match s.io with
      | .broadcasting _ [] =>
          -- and so is `promise`
          match s.locals with
          | some v => some { s with io := .idle, locals := some { v with promise := true } }
          | none => some { s with undefined := true }
      | _ => none
  | .connectionOpen c =>
      match s.io with
      | .idle =>
          if Hub.joined c s.history then none
          else some { s with
            connections := s.connections ++ [c], history := s.history ++ [.join c] }
      | .broadcasting _ _ => none
  | .connectionClose c =>
      match s.io with
      | .idle =>
          if c ∈ s.connections then
            some { s with
              connections := s.connections.erase c, history := s.history ++ [.leave c] }
          else none
      | .broadcasting _ _ => none
  | _ => none

def step (s : WebServer ι) (a : Action ι) : Option (WebServer ι) :=
  if s.undefined ∨ s.terminated then none
  else (threadStep s a).or (ioStep s a)

def system : System (WebServer ι) (Action ι) where
  init := fun s => s = start
  step := step

/-! ## What each step does -/

inductive Step (s : WebServer ι) : Action ι → WebServer ι → Prop where
  | connect (hthread : s.thread = .connecting) : Step s (.connect none) s.beginRound
  | connectThrows {e : Thrown} (hthread : s.thread = .connecting) :
      Step s (.connect (some e)) (s.catchException e)
  | receive {data : Bytes} {v : Locals} (hthread : s.thread = .receiving)
      (hlocals : s.locals = some v) :
      Step s (.receive data) { s with
        thread := .received
        locals := some { v with data := some data }
        returned := s.returned ++ [data] }
  | receiveThrows {e : Thrown} (hthread : s.thread = .receiving) :
      Step s (.receiveThrows e) (s.catchException e)
  | post {round : Nat} {text : Bytes} {set : Bool} (hthread : s.thread = .received)
      (hlocals : s.locals = some ⟨round, some text, set⟩) :
      Step s .post { s with thread := .waiting, queue := s.queue ++ [⟨round, text⟩] }
  | wake {round : Nat} {data : Option Bytes} (hthread : s.thread = .waiting)
      (hlocals : s.locals = some ⟨round, data, true⟩) : Step s .wake s.beginRound
  | retry (hthread : s.thread = .sleeping) : Step s .retry { s with thread := .connecting }
  | begin {order : List ι} {task : Task} {queue : List Task} (hio : s.io = .idle)
      (hqueue : s.queue = task :: queue) (horder : order.Perm s.connections) :
      Step s (.begin order) { s with
        io := .broadcasting task order
        queue := queue
        history := s.history ++ [.send task.text] }
  | send {task : Task} {c : ι} {rest : List ι} {round : Nat} {text : Bytes} {set : Bool}
      (hio : s.io = .broadcasting task (c :: rest))
      (hlocals : s.locals = some ⟨round, some text, set⟩) :
      Step s .send { s with
        io := .broadcasting task rest
        handed := fun d => if d = c then s.handed c ++ [text] else s.handed d }
  | sendUndefined {task : Task} {c : ι} {rest : List ι}
      (hio : s.io = .broadcasting task (c :: rest))
      (hlocals : ∀ round text set, s.locals ≠ some ⟨round, some text, set⟩) :
      Step s .send { s with undefined := true }
  | finish {task : Task} {v : Locals} (hio : s.io = .broadcasting task [])
      (hlocals : s.locals = some v) :
      Step s .finish { s with io := .idle, locals := some { v with promise := true } }
  | finishUndefined {task : Task} (hio : s.io = .broadcasting task [])
      (hlocals : s.locals = none) : Step s .finish { s with undefined := true }
  | connectionOpen {c : ι} (hio : s.io = .idle) (hnew : Hub.joined c s.history = false) :
      Step s (.connectionOpen c) { s with
        connections := s.connections ++ [c], history := s.history ++ [.join c] }
  | connectionClose {c : ι} (hio : s.io = .idle) (hc : c ∈ s.connections) :
      Step s (.connectionClose c) { s with
        connections := s.connections.erase c, history := s.history ++ [.leave c] }

theorem threadStep_cases {s s' : WebServer ι} {a : Action ι} (h : threadStep s a = some s') :
    Step s a s' := by
  cases a with
  | connect thrown =>
      simp only [threadStep] at h
      split at h
      · rename_i hthread
        cases thrown with
        | none => exact Option.some.inj h ▸ Step.connect hthread
        | some e => exact Option.some.inj h ▸ Step.connectThrows hthread
      · exact absurd h (by simp)
  | receive data =>
      simp only [threadStep] at h
      split at h
      · rename_i v hthread hlocals
        exact Option.some.inj h ▸ Step.receive hthread hlocals
      · exact absurd h (by simp)
  | receiveThrows e =>
      simp only [threadStep] at h
      split at h
      · rename_i hthread
        exact Option.some.inj h ▸ Step.receiveThrows hthread
      · exact absurd h (by simp)
  | post =>
      simp only [threadStep] at h
      split at h
      · rename_i round text set hthread hlocals
        exact Option.some.inj h ▸ Step.post hthread hlocals
      · exact absurd h (by simp)
  | wake =>
      simp only [threadStep] at h
      split at h
      · rename_i round data hthread hlocals
        exact Option.some.inj h ▸ Step.wake hthread hlocals
      · exact absurd h (by simp)
  | retry =>
      simp only [threadStep] at h
      split at h
      · rename_i hthread
        exact Option.some.inj h ▸ Step.retry hthread
      · exact absurd h (by simp)
  | _ => exact absurd h (by simp [threadStep])

theorem ioStep_cases {s s' : WebServer ι} {a : Action ι} (h : ioStep s a = some s') :
    Step s a s' := by
  cases a with
  | begin order =>
      simp only [ioStep] at h
      split at h
      · rename_i task queue hio hqueue
        split at h
        · rename_i horder
          exact Option.some.inj h ▸ Step.begin hio hqueue horder
        · exact absurd h (by simp)
      · exact absurd h (by simp)
  | send =>
      simp only [ioStep] at h
      split at h
      · rename_i task c rest hio
        split at h
        · rename_i round text set hlocals
          exact Option.some.inj h ▸ Step.send hio hlocals
        · rename_i hlocals
          exact Option.some.inj h ▸ Step.sendUndefined hio (fun round text set heq =>
            hlocals round text set heq)
      · exact absurd h (by simp)
  | finish =>
      simp only [ioStep] at h
      split at h
      · rename_i task hio
        split at h
        · rename_i v hlocals
          exact Option.some.inj h ▸ Step.finish hio hlocals
        · rename_i hlocals
          exact Option.some.inj h ▸ Step.finishUndefined hio hlocals
      · exact absurd h (by simp)
  | connectionOpen c =>
      simp only [ioStep] at h
      split at h
      · rename_i hio
        split at h
        · exact absurd h (by simp)
        · rename_i hnew
          exact Option.some.inj h ▸ Step.connectionOpen hio (by simpa using hnew)
      · exact absurd h (by simp)
  | connectionClose c =>
      simp only [ioStep] at h
      split at h
      · rename_i hio
        split at h
        · rename_i hc
          exact Option.some.inj h ▸ Step.connectionClose hio hc
        · exact absurd h (by simp)
      · exact absurd h (by simp)
  | _ => exact absurd h (by simp [ioStep])

theorem step_cases {s s' : WebServer ι} {a : Action ι} (h : step s a = some s') :
    Step s a s' := by
  unfold step at h
  split at h
  · exact absurd h (by simp)
  · rcases Option.or_eq_some_iff.mp h with hthread | ⟨_, hio⟩
    · exact threadStep_cases hthread
    · exact ioStep_cases hio

theorem start_of_init {s : WebServer ι} (h : system.init s) : start = s := Eq.symm h

end WebServer

end MobaDisplay
