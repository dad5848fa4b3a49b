import MobaDisplay.Lib.SendQueue
import MobaDisplay.Web.ReadMessage

/-!
# `SimpleWeb::SocketServerBase::Connection::send`

`send` writes a header in front of a message and puts both into the queue of the
connection; `send_from_queue` writes the first entry to the socket. A callback is
known by the frame it belongs to.

The bytes of an entry are those of an unmasked frame, so whoever reads the socket as
frames reads the messages that were sent.
-/

namespace MobaDisplay

open Cxx BigEndian

/-- The header in front of a message, of at most ten bytes. -/
def outHeader (finRsvOpcode : UInt8) (length : Nat) : Bytes :=
  if length ≥ 126 then
    if length > 0xffff then
      finRsvOpcode :: 127 :: bigEndian 8 length
    else
      finRsvOpcode :: 126 :: bigEndian 2 length
  else
    [finRsvOpcode, UInt8.ofNat length]

/-- `OutData`: the header, the message and the callback. -/
def outData (f : WebSocket.Frame) : SendQueue.Job WebSocket.Frame :=
  ⟨outHeader f.head f.payload.length ++ f.payload, f⟩

/-- The frame of a message. -/
def outFrame (finRsvOpcode : UInt8) (message : Bytes) : WebSocket.Frame :=
  ⟨finRsvOpcode, none, message⟩

abbrev OutQueue := SendQueue.Queue WebSocket.Frame ErrorCode

/-- `send(out_message, callback, fin_rsv_opcode)` -/
def OutQueue.sendMessage (q : OutQueue) (finRsvOpcode : UInt8) (message : Bytes) : OutQueue :=
  q.send (outData (outFrame finRsvOpcode message))

/-- The header has the shortest form of the length. -/
theorem outHeader_eq (finRsvOpcode : UInt8) (length : Nat) :
    outHeader finRsvOpcode length
      = finRsvOpcode :: UInt8.ofNat (WebSocket.lengthField length).1
        :: (WebSocket.lengthField length).2 := by
  unfold outHeader WebSocket.lengthField
  -- the source asks for the long forms first, the format for the short one
  by_cases hshort : length < 126
  · rw [if_neg (by omega), if_pos hshort]
  · rw [if_pos (by omega), if_neg hshort]
    by_cases hmiddle : length ≤ 0xffff
    · rw [if_neg (by omega), if_pos hmiddle]
      rfl
    · rw [if_pos (by omega), if_neg hmiddle]
      rfl

/-- Header and message are a frame without a mask. -/
theorem outData_bytes (finRsvOpcode : UInt8) (message : Bytes) :
    (outData (outFrame finRsvOpcode message)).bytes
      = (outFrame finRsvOpcode message).encode := by
  have hheader := outHeader_eq finRsvOpcode message.length
  simp [outData, outFrame, hheader, WebSocket.Frame.encode, WebSocket.Frame.maskBit,
    WebSocket.Frame.content]

/-! ## What is read at the other end -/

/-- The queue holds messages of the connection, none longer than a `std::size_t` can say. -/
def OutQueue.Framed (q : OutQueue) : Prop :=
  ∀ job ∈ q.sent, ∃ finRsvOpcode message, job = outData (outFrame finRsvOpcode message)
    ∧ message.length < 2 ^ 64

/-- The frames sent, in order. -/
def OutQueue.sentFrames (q : OutQueue) : List WebSocket.Frame := q.sent.map fun job => job.callback

/-- What was sent is, frame by frame, what the jobs say. -/
theorem OutQueue.Framed.bytes {q : OutQueue} (h : q.Framed) :
    (q.sent.flatMap fun job => job.bytes) = q.sentFrames.flatMap WebSocket.Frame.encode
      ∧ ∀ f ∈ q.sentFrames, f.payload.length < 256 ^ 8 := by
  refine ⟨?_, ?_⟩
  · rw [OutQueue.sentFrames, List.flatMap_map]
    refine List.flatMap_congr ?_
    intro job hjob
    obtain ⟨head, message, rfl, _⟩ := h job hjob
    exact outData_bytes head message
  · intro f hf
    obtain ⟨job, hjob, rfl⟩ := List.mem_map.mp hf
    obtain ⟨head, message, rfl, hlength⟩ := h job hjob
    have hpow : (2 : Nat) ^ 64 = 256 ^ 8 := by norm_num
    rw [← hpow]
    exact hlength

/--
**Whoever reads the socket reads the frames that were sent**, whole and in order: the
first of them while more is being written, and all of them once the queue is empty.
-/
theorem OutQueue.Framed.frames_wire {q : OutQueue} (h : q.Framed) (hsound : q.Sound) :
    (WebSocket.frames q.wire).1 <+: q.sentFrames
      ∧ (q.queue = [] → WebSocket.frames q.wire = (q.sentFrames, [])) := by
  obtain ⟨hbytes, hlength⟩ := h.bytes
  obtain ⟨hwire, hall⟩ := hsound.wire
  rw [hbytes] at hwire hall
  refine ⟨WebSocket.frames_of_prefix hlength hwire, ?_⟩
  intro hqueue
  have hframes := WebSocket.frames_encode hlength WebSocket.decode_nil
  rw [List.append_nil] at hframes
  rw [(hall hqueue).1, hframes]

/-! ## Who is told what -/

namespace OutQueue

/-- What can happen to the queue of a connection. -/
inductive Action where
  | send (finRsvOpcode : UInt8) (message : Bytes)
  | transfer (i n : Nat)
  | complete (i : Nat)
  | fail (i : Nat) (ec : ErrorCode)
  | halt

def Action.event : Action → SendQueue.Event WebSocket.Frame ErrorCode
  | send finRsvOpcode message => .send (outData (outFrame finRsvOpcode message))
  | transfer i n => .transfer i n
  | complete i => .complete i
  | fail i ec => .fail i ec
  | halt => .halt

def system : Transition.System OutQueue Action where
  init := fun q => q = {}
  step := fun q a => SendQueue.Queue.step q a.event

/-- A frame someone was told about, with what the socket has taken of it. -/
structure Told where
  frame : WebSocket.Frame
  taken : Bytes
  error : Option ErrorCode

/-- A beginning of the frame was taken; if no error was told, all of it. -/
def Told.Fair (t : Told) : Prop :=
  t.taken <+: t.frame.encode ∧ (t.error = none → t.taken = t.frame.encode)

theorem framed_step {q q' : OutQueue} {a : Action} (hstep : system.step q a = some q')
    (h : ∀ job ∈ q.sent, ∃ f : WebSocket.Frame, job = outData f ∧ f.mask = none) :
    ∀ job ∈ q'.sent, ∃ f : WebSocket.Frame, job = outData f ∧ f.mask = none := by
  intro job hjob
  rw [SendQueue.Queue.step_sent hstep] at hjob
  rcases List.mem_append.mp hjob with hjob | hjob
  · exact h job hjob
  · cases a with
    | send head message => exact ⟨outFrame head message, List.mem_singleton.mp hjob, rfl⟩
    | _ => exact absurd hjob (by simp [Action.event, SendQueue.Event.jobs])

theorem settled_reachable {q : OutQueue} (hq : system.Reachable q) :
    (∃ outcomes, SendQueue.Queue.Settled q outcomes)
      ∧ ∀ job ∈ q.sent, ∃ f : WebSocket.Frame, job = outData f ∧ f.mask = none := by
  have hall : SendQueue.Queue.system.Reachable q
      ∧ ∀ job ∈ q.sent, ∃ f : WebSocket.Frame, job = outData f ∧ f.mask = none := by
    refine Transition.System.Reachable.invariant
      (P := fun q : OutQueue => SendQueue.Queue.system.Reachable q
        ∧ ∀ job ∈ q.sent, ∃ f : WebSocket.Frame, job = outData f ∧ f.mask = none) ?_ ?_ hq
    · rintro _ rfl
      exact ⟨.init rfl, fun job hjob => absurd hjob (by simp)⟩
    · rintro q a q' _ ⟨hreach, hframed⟩ hstep
      exact ⟨hreach.tail hstep, framed_step hstep hframed⟩
  exact ⟨SendQueue.Queue.settled_reachable hall.1, hall.2⟩

/-- The bytes of what was sent are those of its frame. -/
theorem bytes_of_framed {job : SendQueue.Job WebSocket.Frame} {f : WebSocket.Frame}
    (hjob : job = outData f) (hmask : f.mask = none) : job.bytes = job.callback.encode := by
  obtain ⟨head, mask, payload⟩ := f
  obtain rfl : mask = none := hmask
  rw [hjob]
  exact outData_bytes head payload

/--
**Whoever sends is told once, in order, and not a byte is mixed.** In every run, with
writes that fail and a server that stops: one write at most is under way; the callbacks
called and those waiting are the sends, in order; and the socket has taken, frame by
frame, all of each that was reported well, a beginning of each that failed, and a
beginning of the one being written.
-/
theorem callbacks_once {q : OutQueue} (hq : system.Reachable q) :
    q.undefined = false ∧ q.writes.length ≤ 1
      ∧ ∃ (told : List Told) (begun : Bytes), (∀ t ∈ told, t.Fair)
        ∧ q.called = told.map (fun t => (t.frame, t.error))
        ∧ q.sentFrames = told.map (fun t => t.frame) ++ q.queue.map (fun job => job.callback)
        ∧ q.wire = (told.flatMap fun t => t.taken) ++ begun
        ∧ (q.queue = [] → begun = [])
        ∧ ∀ job ∈ q.queue.head?, begun <+: job.callback.encode := by
  obtain ⟨⟨outcomes, h⟩, hframed⟩ := settled_reachable hq
  have hbytes : ∀ job ∈ q.sent, job.bytes = job.callback.encode := by
    intro job hjob
    obtain ⟨f, hf, hmask⟩ := hframed job hjob
    exact bytes_of_framed hf hmask
  have hmem : ∀ o ∈ outcomes, o.job ∈ q.sent := by
    intro o ho
    rw [h.sent]
    exact List.mem_append_left _ (List.mem_map.mpr ⟨o, ho, rfl⟩)
  have hfair : ∀ t ∈ outcomes.map (fun o => (⟨o.job.callback, o.taken, o.error⟩ : Told)),
      t.Fair := by
    intro t ht
    obtain ⟨o, ho, rfl⟩ := List.mem_map.mp ht
    have hfair := h.fair o ho
    rw [SendQueue.Queue.Outcome.Fair, hbytes o.job (hmem o ho)] at hfair
    exact hfair
  have hsent : q.sentFrames
      = (outcomes.map (fun o => (⟨o.job.callback, o.taken, o.error⟩ : Told))).map
          (fun t => t.frame) ++ q.queue.map (fun job => job.callback) := by
    rw [sentFrames, h.sent, List.map_append, List.map_map, List.map_map]
    rfl
  have hcalled : q.called
      = (outcomes.map (fun o => (⟨o.job.callback, o.taken, o.error⟩ : Told))).map
          (fun t => (t.frame, t.error)) := by
    rw [h.called, List.map_map]
    rfl
  have htaken : ((outcomes.map (fun o => (⟨o.job.callback, o.taken, o.error⟩ : Told))).flatMap
      fun t => t.taken) = outcomes.flatMap fun o => o.taken := by
    rw [List.flatMap_map]
  -- an empty queue, or a first entry of which a part is on the wire
  cases h.writing with
  | idle hqueue hwrites hwire =>
      refine ⟨h.defined, by simp [hwrites], _, [], hfair, hcalled, hsent, ?_, fun _ => rfl, ?_⟩
      · rw [htaken, hwire, List.append_nil]
      · simp [hqueue]
  | first job rest taken left hqueue hwrites hone hwire =>
      refine ⟨h.defined, ?_, _, taken, hfair, hcalled, hsent, ?_, ?_, ?_⟩
      · rcases hwrites with hwrites | ⟨hwrites, _⟩ <;> simp [hwrites]
      · rw [htaken, hwire]
      · intro hnil
        rw [hqueue] at hnil
        exact absurd hnil (by simp)
      · intro job' hjob'
        rw [hqueue, List.head?_cons, Option.mem_some_iff] at hjob'
        subst hjob'
        have hjob : job ∈ q.sent := by
          rw [h.sent, hqueue]
          simp
        rw [← hbytes job hjob]
        exact ⟨left, hone.symm⟩

/-- Two texts; the second waits, and is told of the failure of the first. -/
theorem callbacks_once_failed :
    ∃ q, system.run {} [.send 129 [104, 105], .send 129 [111], .transfer 0 3,
        .fail 0 (.other 32)] = some q
      ∧ q.called = [(outFrame 129 [104, 105], some (.other 32)), (outFrame 129 [111],
        some (.other 32))]
      ∧ q.writes.length ≤ 1 := by
  have hrun : system.run {} [.send 129 [104, 105], .send 129 [111], .transfer 0 3,
      .fail 0 (.other 32)] = some _ := rfl
  exact ⟨_, hrun, rfl,
    (callbacks_once (Transition.System.Reachable.run (.init rfl) hrun)).2.1⟩

end OutQueue

end MobaDisplay
