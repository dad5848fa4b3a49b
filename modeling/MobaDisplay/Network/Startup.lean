import MobaDisplay.Lib.Hub
import MobaDisplay.Lib.Transition
import MobaDisplay.Page.Control
import MobaDisplay.Page.Frames

/-!
# Pages, server and control system at start-up

Any number of pages. Each joins the broadcast set when its websocket opens and
then sends the four frames of `ws.onopen`; the server forwards them in the order
it handles them, the control system answers in the order it receives them, and
whatever it sends goes to every page inside at that moment. No answer is addressed
to the page that asked.

The control system is not part of this repository. What is assumed of it is its
order, and which message answers which request; it may report a transition at any
time.
-/

namespace MobaDisplay

open Cxx Transition

/-- What the control system sends. -/
inductive Message where
  /-- `(7, 5)` -/
  | hardwareState (status : String)
  | control (m : ControlMessage)

def Message.parsed : Message → Js.JsValue
  | hardwareState status => message "7" "5" (.string status)
  | control m => m.parsed

/-- The message answers the request. -/
def Message.answers : Message → SendMsgCall → Bool
  | hardwareState _, call => call.groupId == 7 && call.messageId == 7
  | control (.trainList _), call => call.groupId == 10 && call.messageId == 7
  | control (.blockList _), call => call.groupId == 10 && call.messageId == 1
  | control (.switchList _), call => call.groupId == 10 && call.messageId == 4
  | control (.transition _), _ => false

def Message.isTrainList : Message → Bool
  | control (.trainList _) => true
  | _ => false

/-- The messages whose handlers look up trains. -/
def Message.looksUpTrains : Message → Bool
  | control (.blockList _) => true
  | control (.transition _) => true
  | _ => false

/-- One message of the control system. -/
structure Emission (ι : Type) where
  /-- How many it had sent before. -/
  number : Nat
  /-- The request it answers and the page that sent it; `none` for a report. -/
  answers : Option (ι × SendMsgCall)
  message : Message

/-- A page and its websocket. -/
structure Client (ι : Type) where
  /-- The connection is in the broadcast set. -/
  inSet : Bool
  /-- `ws.onopen` ran. -/
  opened : Bool
  /-- Frames the server has not handled yet. -/
  outgoing : List Frame
  /-- Messages the page has not handled yet. -/
  inbox : List (Emission ι)
  /-- Messages the page has handled. -/
  handled : List (Emission ι)
  page : Page

structure Network (ι : Type) where
  clients : ι → Option (Client ι)
  /-- What `sendMsg` was called with and the control system has not answered yet. -/
  requests : List (ι × SendMsgCall)
  /-- Everything the control system has sent. -/
  log : List (Emission ι)
  /-- What of it has not been broadcast yet. -/
  pending : List (Emission ι)
  /-- What happened to the broadcast set. -/
  history : List (Hub.Event ι (Emission ι))

namespace Network

variable {ι : Type} [DecidableEq ι]

def start : Network ι := ⟨fun _ => none, [], [], [], []⟩

inductive Action (ι : Type) where
  /-- The websocket of a page opens. -/
  | join (i : ι)
  /-- Its `ws.onopen` runs. -/
  | onopen (i : ι)
  /-- The server handles the oldest frame of a page. -/
  | forward (i : ι)
  /-- The control system answers the oldest request. -/
  | answer (m : Message)
  /-- It reports a transition. -/
  | report (data : Js.Fields)
  /-- The server broadcasts the oldest message. -/
  | broadcast
  /-- A page handles the oldest message in its inbox. -/
  | handle (i : ι)
  /-- The websocket of a page closes. -/
  | leave (i : ι)

def setClient (s : Network ι) (i : ι) (c : Client ι) : Network ι :=
  { s with clients := fun j => if j = i then some c else s.clients j }

def emit (s : Network ι) (answers : Option (ι × SendMsgCall)) (m : Message) : Network ι :=
  let e : Emission ι := ⟨s.log.length, answers, m⟩
  { s with log := s.log ++ [e], pending := s.pending ++ [e] }

end Network

/-- A broadcast reaches the clients in the set. -/
def Client.deliver {ι : Type} (e : Emission ι) (c : Client ι) : Client ι :=
  if c.inSet then { c with inbox := c.inbox ++ [e] } else c

namespace Network

variable {ι : Type} [DecidableEq ι]

def step (svg : Svg) (s : Network ι) : Action ι → Option (Network ι)
  | .join i =>
      match s.clients i with
      | none => some { s.setClient i ⟨true, false, [], [], [], Page.loaded svg⟩ with
          history := s.history ++ [.join i] }
      | some _ => none
  | .onopen i =>
      match s.clients i with
      | some c =>
          if c.opened then none
          else some (s.setClient i { c with opened := true, outgoing := Frame.onopen })
      | none => none
  | .forward i =>
      match s.clients i with
      | some c =>
          match c.outgoing with
          | f :: fs =>
              if c.inSet then some { s.setClient i { c with outgoing := fs } with
                requests := s.requests
                  ++ (onMessage sendMsgOk (utf8 f.text)).calls.map (fun call => (i, call)) }
              else none
          | [] => none
      | none => none
  | .answer m =>
      match s.requests with
      | r :: rs => if m.answers r.2 then some { s.emit (some r) m with requests := rs } else none
      | [] => none
  | .report data => some (s.emit none (.control (.transition data)))
  | .broadcast =>
      match s.pending with
      | e :: es => some { s with
          clients := fun i => (s.clients i).map (Client.deliver e)
          pending := es
          history := s.history ++ [.send e] }
      | [] => none
  | .handle i =>
      match s.clients i with
      | some c =>
          match c.inbox with
          | e :: es =>
              if c.opened then some (s.setClient i { c with
                inbox := es
                handled := c.handled ++ [e]
                page := c.page.receive e.message.parsed })
              else none
          | [] => none
      | none => none
  | .leave i =>
      match s.clients i with
      | some c =>
          if c.inSet then some { s.setClient i { c with inSet := false } with
            history := s.history ++ [.leave i] }
          else none
      | none => none

/-- The pages around a drawing, their server and the control system. -/
def system (svg : Svg) : System (Network ι) (Action ι) where
  init := fun s => s = start
  step := step svg

theorem start_of_init {svg : Svg} {s : Network ι} (h : (system svg).init s) : start = s :=
  Eq.symm h

/-! ## What each step does -/

/-- One step, by its cases. -/
inductive Step (svg : Svg) (s : Network ι) : Action ι → Network ι → Prop where
  | join {i : ι} (hnew : s.clients i = none) :
      Step svg s (.join i) { s.setClient i ⟨true, false, [], [], [], Page.loaded svg⟩ with
        history := s.history ++ [.join i] }
  | onopen {i : ι} {c : Client ι} (hc : s.clients i = some c) (hopen : c.opened = false) :
      Step svg s (.onopen i) (s.setClient i { c with opened := true, outgoing := Frame.onopen })
  | forward {i : ι} {c : Client ι} {f : Frame} {fs : List Frame} (hc : s.clients i = some c)
      (hout : c.outgoing = f :: fs) (hset : c.inSet = true) :
      Step svg s (.forward i) { s.setClient i { c with outgoing := fs } with
        requests := s.requests ++ [(i, f.call)] }
  | answer {m : Message} {r : ι × SendMsgCall} {rs : List (ι × SendMsgCall)}
      (hreq : s.requests = r :: rs) (hm : m.answers r.2 = true) :
      Step svg s (.answer m) { s.emit (some r) m with requests := rs }
  | report {data : Js.Fields} :
      Step svg s (.report data) (s.emit none (.control (.transition data)))
  | broadcast {e : Emission ι} {es : List (Emission ι)} (hpending : s.pending = e :: es) :
      Step svg s .broadcast { s with
        clients := fun i => (s.clients i).map (Client.deliver e)
        pending := es
        history := s.history ++ [.send e] }
  | handle {i : ι} {c : Client ι} {e : Emission ι} {es : List (Emission ι)}
      (hc : s.clients i = some c) (hin : c.inbox = e :: es) (hopen : c.opened = true) :
      Step svg s (.handle i) (s.setClient i { c with
        inbox := es
        handled := c.handled ++ [e]
        page := c.page.receive e.message.parsed })
  | leave {i : ι} {c : Client ι} (hc : s.clients i = some c) (hset : c.inSet = true) :
      Step svg s (.leave i) { s.setClient i { c with inSet := false } with
        history := s.history ++ [.leave i] }

theorem step_cases {svg : Svg} {s s' : Network ι} {a : Action ι} (h : step svg s a = some s') :
    Step svg s a s' := by
  cases a with
  | join i =>
      simp only [step] at h
      split at h
      · rename_i hnew
        exact Option.some.inj h ▸ Step.join hnew
      · exact absurd h (by simp)
  | onopen i =>
      simp only [step] at h
      split at h
      · rename_i c hc
        split at h
        · exact absurd h (by simp)
        · rename_i hopen
          exact Option.some.inj h ▸ Step.onopen hc (by simpa using hopen)
      · exact absurd h (by simp)
  | forward i =>
      simp only [step] at h
      split at h
      · rename_i c hc
        split at h
        · rename_i f fs hout
          split at h
          · rename_i hset
            rw [calls_frame] at h
            exact Option.some.inj h ▸ Step.forward hc hout hset
          · exact absurd h (by simp)
        · exact absurd h (by simp)
      · exact absurd h (by simp)
  | answer m =>
      simp only [step] at h
      split at h
      · rename_i r rs hreq
        split at h
        · rename_i hm
          exact Option.some.inj h ▸ Step.answer hreq hm
        · exact absurd h (by simp)
      · exact absurd h (by simp)
  | report data => exact Option.some.inj h ▸ Step.report
  | broadcast =>
      simp only [step] at h
      split at h
      · rename_i e es hpending
        exact Option.some.inj h ▸ Step.broadcast hpending
      · exact absurd h (by simp)
  | handle i =>
      simp only [step] at h
      split at h
      · rename_i c hc
        split at h
        · rename_i e es hin
          split at h
          · rename_i hopen
            exact Option.some.inj h ▸ Step.handle hc hin hopen
          · exact absurd h (by simp)
        · exact absurd h (by simp)
      · exact absurd h (by simp)
  | leave i =>
      simp only [step] at h
      split at h
      · rename_i c hc
        split at h
        · rename_i hset
          exact Option.some.inj h ▸ Step.leave hc hset
        · exact absurd h (by simp)
      · exact absurd h (by simp)

/-! ## Reading a changed client -/

section Deliver

omit [DecidableEq ι]

variable (e : Emission ι) (c : Client ι)

@[simp] theorem deliver_inSet : (Client.deliver e c).inSet = c.inSet := by
  unfold Client.deliver
  split <;> rfl

@[simp] theorem deliver_opened : (Client.deliver e c).opened = c.opened := by
  unfold Client.deliver
  split <;> rfl

@[simp] theorem deliver_outgoing : (Client.deliver e c).outgoing = c.outgoing := by
  unfold Client.deliver
  split <;> rfl

@[simp] theorem deliver_handled : (Client.deliver e c).handled = c.handled := by
  unfold Client.deliver
  split <;> rfl

theorem deliver_inbox : (Client.deliver e c).inbox = c.inbox ++ if c.inSet then [e] else [] := by
  unfold Client.deliver
  by_cases hset : c.inSet = true
  · rw [if_pos hset, if_pos hset]
  · rw [if_neg hset, if_neg hset, List.append_nil]

end Deliver

theorem setClient_self (s : Network ι) (i : ι) (c : Client ι) :
    (s.setClient i c).clients i = some c := if_pos rfl

theorem setClient_ne (s : Network ι) {i j : ι} (c : Client ι) (h : j ≠ i) :
    (s.setClient i c).clients j = s.clients j := if_neg h

end Network

end MobaDisplay
