import MobaDisplay.Page.Frames
import MobaDisplay.Proof.ReadMessage

/-!
# From the socket to the control system, and what no client can do

The first part puts the handler of `webserver.cpp` behind the reading: the commands
of a page, in whatever frames they travel, are the calls of `sendMsg`.

The second part is about clients that keep to no rule. Whatever bytes come in and
whatever goes wrong, a connection talks first and ends once, and no message it hands
on is longer than the limit or than it says it is.
-/

namespace MobaDisplay

open Cxx BigEndian AsyncRead Transition Connection
open WebSocket (Kind Said encodeSaid)

/-! ## The commands of a page -/

/-- The calls of `sendMsg` that the messages in a log lead to. -/
def logCalls (sendMsg : SendMsg) (log : List Effect) : List SendMsgCall :=
  log.flatMap fun
    | .onMessage m => (onMessage sendMsg m.string).calls
    | _ => []

theorem logCalls_append (sendMsg : SendMsg) (log log' : List Effect) :
    logCalls sendMsg (log ++ log') = logCalls sendMsg log ++ logCalls sendMsg log' :=
  List.flatMap_append

theorem logCalls_signal (sendMsg : SendMsg) (payload : Bytes) (s : WebSocket.Signal) :
    logCalls sendMsg (heardSignal payload s) = [] := by
  cases s with
  | ping => rfl
  | pong => rfl

theorem logCalls_middle (sendMsg : SendMsg) (middle : List WebSocket.Piece) :
    logCalls sendMsg (middle.flatMap heardPiece) = [] := by
  induction middle with
  | nil => rfl
  | cons piece middle ih =>
      rw [List.flatMap_cons, logCalls_append, ih, List.append_nil]
      cases piece with
      | signal s p => exact logCalls_signal sendMsg p.payload s
      | part p => rfl

/-- A thing said makes the calls of its content, if it is a message. -/
theorem logCalls_heard (sendMsg : SendMsg) (said : Said) :
    logCalls sendMsg (heard said)
      = (said.content.toList).flatMap fun content => (onMessage sendMsg content.2).calls := by
  cases said with
  | signal s p => exact logCalls_signal sendMsg p.payload s
  | whole k p => rfl
  | pieces k first middle last =>
      simp only [heard, logCalls_append, logCalls_middle, List.nil_append]
      rfl

theorem logCalls_said (sendMsg : SendMsg) (said : List Said) :
    logCalls sendMsg (said.flatMap heard)
      = (said.filterMap Said.content).flatMap
          fun content => (onMessage sendMsg content.2).calls := by
  induction said with
  | nil => rfl
  | cons first said ih =>
      rw [List.flatMap_cons, logCalls_append, logCalls_heard, ih, List.filterMap_cons]
      cases first.content <;> simp

/--
**The control system receives exactly the commands of the page, in their order**,
through the frames they travel in: with any masks, whole or in fragments, with
signals in between, and however the network cuts the stream.
-/
theorem page_commands (sendMsg : SendMsg) (fs : List Frame) {said : List Said}
    (hsaid : said.filterMap Said.content = fs.map fun f => (Kind.text, utf8 f.text))
    {es : List (Event Failure)} (hes : Reader.Undisturbed es)
    (harrived : Reader.arrived es <+: encodeSaid said) {y : Link Connection}
    (hrun : ((reader {}).system .opened).run ⟨.opened, []⟩ es = some y) :
    logCalls sendMsg y.state.log <+: fs.map Frame.call
      ∧ (Reader.arrived es = encodeSaid said →
        ∃ c, (reader {}).Settles y c ∧ logCalls sendMsg c.log = fs.map Frame.call) := by
  have hreads := reads_said said [] []
  rw [List.append_nil] at hreads
  obtain ⟨⟨rest, hrest⟩, hsettles⟩ :=
    course_of_run hreads (quiet_talking {} _) hes harrived hrun
  have hcalls : logCalls sendMsg (said.flatMap heard) = fs.map Frame.call := by
    rw [logCalls_said, hsaid, List.flatMap_map]
    simp only [calls_frame]
    exact List.map_eq_flatMap.symm
  -- calls are counted in the log, so the beginning of one is the beginning of the other
  refine ⟨⟨logCalls sendMsg rest, ?_⟩, ?_⟩
  · rw [← logCalls_append, hrest]
    exact hcalls
  · intro heq
    exact ⟨_, hsettles heq, hcalls⟩

/-- The emergency button of a page, its command in two fragments with a ping between them. -/
theorem page_commands_emergency :
    ∃ y, ((reader {}).system .opened).run ⟨.opened, []⟩ pingedRun = some y
      ∧ ∃ c, (reader {}).Settles y c ∧ logCalls sendMsgOk c.log = [⟨7, 2, utf8 "true"⟩] := by
  have hrun : (((reader {}).system .opened).run ⟨.opened, []⟩ pingedRun).isSome = true := by
    decide +kernel
  obtain ⟨y, hy⟩ := Option.isSome_iff_exists.mp hrun
  have hsaid : [pinged].filterMap Said.content
      = [Frame.emergency true].map fun f => (Kind.text, utf8 f.text) := by
    decide +kernel
  have harrived : Reader.arrived pingedRun = encodeSaid [pinged] := by decide +kernel
  have hundisturbed : Reader.Undisturbed pingedRun := by simp [Reader.Undisturbed, pingedRun]
  have hall := page_commands sendMsgOk [Frame.emergency true] hsaid hundisturbed
    (harrived ▸ List.prefix_refl _) hy
  exact ⟨y, hy, hall.2 harrived⟩

/-! ## Any stream, and any failure -/

/-- A log is talk, and then the end of the connection, if it has come. -/
def Orderly (c : Connection) : Prop :=
  ∃ talk ending, c.log = talk ++ ending ∧ (∀ e ∈ talk, e.IsTalk) ∧ Ending ending
    ∧ (c.reading ≠ .ended → ending = [] ∧ c.closed = false)

theorem orderly_outcome {c d : Connection} (hc : Orderly c) (hreading : c.reading ≠ .ended)
    (h : Outcome c.log d) : Orderly d := by
  obtain ⟨talk, ending, hlog, htalk, _, hopen⟩ := hc
  obtain ⟨rfl, _⟩ := hopen hreading
  rw [List.append_nil] at hlog
  -- nothing has ended yet, so what comes now is more talk or the whole of the ending
  cases h with
  | talks effects heffects hd hclosed _ =>
      refine ⟨talk ++ effects, [], ?_, ?_, Ending.silent, fun _ => ⟨rfl, hclosed⟩⟩
      · rw [hd, hlog, List.append_nil]
      · intro e he
        rcases List.mem_append.mp he with he | he
        · exact htalk e he
        · exact heffects e he
  | ends effects hending hd hended =>
      refine ⟨talk, effects, ?_, htalk, hending, fun hne => absurd hended hne⟩
      rw [hd, hlog]

theorem orderly_step {config : SocketConfig} {x y : Link Connection} {e : Event Failure}
    (hx : Orderly x.state) (h : (reader config).step x e = some y) : Orderly y.state := by
  cases e with
  | arrive bytes =>
      obtain rfl := Option.some.inj h
      exact hx
  | complete =>
      obtain ⟨n, hneed, _, rfl⟩ := Reader.complete_eq_some.mp h
      have hreading := reading_of_need hneed
      obtain ⟨_, _, _, _, _, hopen⟩ := id hx
      exact orderly_outcome hx hreading
        (outcome_handle config (hopen hreading).2 hreading _)
  | fail failure =>
      simp only [Reader.step] at h
      split at h
      · rename_i hneed
        obtain ⟨n, hneed⟩ := Option.isSome_iff_exists.mp hneed
        obtain rfl := Option.some.inj h
        have hreading := reading_of_need hneed
        obtain ⟨_, _, _, _, _, hopen⟩ := id hx
        exact orderly_outcome hx hreading (outcome_fail (hopen hreading).2 failure)
      · exact absurd h (by simp)

/--
**Whatever a client sends, a connection talks first and ends at most once**: every
message handed on and every ping answered comes before the connection leaves the
endpoint's set, and after that there is nothing but its own farewell, with at most
one close frame.
-/
theorem talks_then_ends (config : SocketConfig) {x : Link Connection}
    (hx : ((reader config).system .opened).Reachable x) : Orderly x.state := by
  refine System.Reachable.invariant (P := fun x => Orderly x.state) ?_ ?_ hx
  · rintro _ rfl
    exact ⟨[], [], rfl, by simp, Ending.silent, fun _ => ⟨rfl, rfl⟩⟩
  · intro x e y _ hx hstep
    exact orderly_step hx hstep

/-- A client that sends half a frame and goes away. -/
theorem talks_then_ends_half :
    ∃ x, ((reader {}).system .opened).run ⟨.opened, []⟩
        [.arrive [0x89, 0x80, 1, 2], .complete, .fail (.error (.other 2))] = some x
      ∧ Orderly x.state := by
  have hrun : ((reader {}).system .opened).run ⟨.opened, []⟩
      [.arrive [0x89, 0x80, 1, 2], .complete, .fail (.error (.other 2))]
        = some ⟨({ opened with reading := .content 0 0x89 } : Connection).connectionError
          (.other 2), [1, 2]⟩ := by
    decide +kernel
  exact ⟨_, hrun, talks_then_ends {} (System.Reachable.run (.init rfl) hrun)⟩

/-! ## The size of a message -/

/-- A message is as long as it says, and within the limit. -/
def Fits (config : SocketConfig) (m : InMessage) : Prop :=
  m.length = m.streambuf.length ∧ m.length ≤ config.maxMessageSize

/-- How much of a message in fragments has been taken off the stream. -/
def heldLength (c : Connection) : Nat :=
  match c.fragmentedInMessage with
  | some m => m.streambuf.length
  | none => 0

structure Sized (config : SocketConfig) (total : Nat) (x : Link Connection) : Prop where
  /-- Nothing is held that has not arrived. -/
  held : heldLength x.state + x.received.length ≤ total
  /-- The handlers leave nothing in the stream buffer. -/
  buffer : x.state.reading ≠ .ended → x.state.streambuf = []
  fragmented : ∀ m ∈ x.state.fragmentedInMessage, Fits config m
  /-- A payload is asked for only if the message stays within the limit. -/
  content : ∀ length head, x.state.reading = .content length head →
    length < 2 ^ 64 ∧ sizeT (length + x.state.fragmentedLength) ≤ config.maxMessageSize
  /-- No length has more than eight bytes. -/
  width : ∀ n head, x.state.reading = .lengthBytes n head → n ≤ 8
  messages : ∀ m, .onMessage m ∈ x.state.log → Fits config m

theorem heldLength_eq {config : SocketConfig} {c : Connection}
    (h : ∀ m ∈ c.fragmentedInMessage, Fits config m) : c.fragmentedLength = heldLength c := by
  unfold fragmentedLength heldLength
  cases hm : c.fragmentedInMessage with
  | none => rfl
  | some m => exact (h m (by rw [hm]; rfl)).1

/-- The message a payload is put into still fits, if nothing overflows. -/
theorem fits_filled {config : SocketConfig} {c : Connection}
    (hfragmented : ∀ m ∈ c.fragmentedInMessage, Fits config m) {payload : Bytes}
    (hlimit : payload.length + c.fragmentedLength ≤ config.maxMessageSize)
    (hsmall : payload.length + c.fragmentedLength < 2 ^ 64) (head : UInt8) :
    Fits config (c.filled head payload) := by
  unfold filled inMessage
  unfold fragmentedLength at hlimit hsmall
  -- a fragment goes behind those collected before it, anything else starts a message
  split
  · split
    · exact ⟨by simp, by dsimp only; omega⟩
    · rename_i m hm
      rw [hm] at hlimit hsmall
      obtain ⟨hlength, _⟩ := hfragmented m (by rw [hm]; rfl)
      have hsum : sizeT (m.length + payload.length) = m.length + payload.length :=
        Nat.mod_eq_of_lt (by dsimp only at hsmall; omega)
      dsimp only at hlimit
      refine ⟨?_, ?_⟩
      · simp only [hsum, List.length_append]
        omega
      · simp only [hsum]
        omega
  · exact ⟨by simp, by dsimp only; omega⟩

/-- What a message is filled with was held before, or is its payload. -/
theorem filled_length (c : Connection) (payload : Bytes) (head : UInt8) :
    (c.filled head payload).streambuf.length ≤ heldLength c + payload.length := by
  unfold filled inMessage heldLength
  split
  · split
    · simp
    · rename_i m hm
      simp [hm]
  · simp

/-- A step that handles no message. -/
structure Untouched (c d : Connection) : Prop where
  streambuf : d.streambuf = c.streambuf
  fragmented : d.fragmentedInMessage = c.fragmentedInMessage
  messages : ∀ m, .onMessage m ∈ d.log → .onMessage m ∈ c.log

theorem untouched_close (c : Connection) (status : Nat) (reason : Bytes) :
    Untouched c ((c.sendClose status reason).connectionClose status reason) := by
  by_cases hclosed : c.closed = true
  · have hsend : c.sendClose status reason = c := by simp [sendClose, hclosed]
    rw [hsend]
    exact ⟨rfl, rfl, fun m h => by simpa [connectionClose, logged] using h⟩
  · rw [sendClose_of_open (by simpa using hclosed)]
    exact ⟨rfl, rfl, fun m h => by simpa [connectionClose, logged, closeFrame] using h⟩

/-- What handling a message leaves of the connection. -/
structure Dispatched (c : Connection) (m : InMessage) (d : Connection) : Prop where
  streambuf : d.streambuf = c.streambuf
  fragmented : d.fragmentedInMessage = c.fragmentedInMessage ∨ d.fragmentedInMessage = none
  reading : d.reading = .firstBytes ∨ d.reading = .ended
  messages : ∀ m', .onMessage m' ∈ d.log → .onMessage m' ∈ c.log ∨ m' = m

theorem dispatched (c : Connection) (length : Nat) (head : UInt8) (m : InMessage) :
    Dispatched c m (c.dispatch length head m) := by
  unfold dispatch
  split
  · have hclose := untouched_close c (closeStatus length m).1 (closeStatus length m).2
    exact ⟨hclose.streambuf, Or.inl hclose.fragmented, Or.inr rfl,
      fun m' h => Or.inl (hclose.messages m' h)⟩
  · split
    · exact ⟨rfl, Or.inl rfl, Or.inl rfl,
        fun m' h => Or.inl (by simpa [logged, readMessage] using h)⟩
    · split
      · exact ⟨rfl, Or.inl rfl, Or.inl rfl,
          fun m' h => Or.inl (by simpa [logged, readMessage] using h)⟩
      · split
        · exact ⟨rfl, Or.inl rfl, Or.inl rfl, fun m' h => Or.inl h⟩
        · exact ⟨rfl, Or.inr rfl, Or.inl rfl,
            fun m' h => by simpa [logged, readMessage] using h⟩

/-- Where the payload of a frame has gone. -/
theorem fragmented_receive {c : Connection} {head : UInt8} {payload : Bytes} {m : InMessage}
    (h : m ∈ (c.receive head payload).fragmentedInMessage) :
    m ∈ c.fragmentedInMessage ∨ m = c.filled head payload := by
  unfold receive at h
  rcases (dispatched _ _ _ _).fragmented with heq | heq
  · rw [heq] at h
    unfold keepFragmented at h
    split at h
    · exact Or.inr (Option.some.inj h).symm
    · exact Or.inl h
  · rw [heq] at h
    exact absurd h (by simp)

theorem messages_receive {c : Connection} {head : UInt8} {payload : Bytes} {m : InMessage}
    (h : .onMessage m ∈ (c.receive head payload).log) :
    .onMessage m ∈ c.log ∨ m = c.filled head payload := by
  have hmem := (dispatched _ _ _ _).messages m h
  rw [keepFragmented_log] at hmem
  exact hmem

theorem heldLength_receive (c : Connection) (head : UInt8)
    (payload : Bytes) : heldLength (c.receive head payload) ≤ heldLength c + payload.length := by
  cases hm : (c.receive head payload).fragmentedInMessage with
  | none => simp [heldLength, hm]
  | some m =>
      have hheld : heldLength (c.receive head payload) = m.streambuf.length := by
        simp [heldLength, hm]
      rw [hheld]
      rcases fragmented_receive (m := m) (by rw [hm]; rfl) with hold | rfl
      · have hc : heldLength c = m.streambuf.length := by
          rw [Option.mem_def] at hold
          simp [heldLength, hold]
        omega
      · exact filled_length c payload head

/-- The last read of a frame has its payload, or `4 + length` was no `std::size_t`. -/
theorem handle_content (config : SocketConfig) {c : Connection} (hbuf : c.streambuf = [])
    {length : Nat} {head : UInt8} (hreading : c.reading = .content length head)
    (hlength : length < 2 ^ 64) {bytes : Bytes} (hbytes : bytes.length = sizeT (4 + length)) :
    (bytes.length = 4 + length ∧ ∃ payload : Bytes, payload.length = length
        ∧ handle config c bytes = c.receive head payload)
      ∨ handle config c bytes = { c with
          streambuf := bytes, reading := .ended, undefined := true } := by
  have hhandle : handle config c bytes
      = { c with streambuf := bytes }.handleContent length head := by
    simp only [handle, hreading, hbuf, List.nil_append]
  by_cases hsmall : 4 + length < 2 ^ 64
  · left
    rw [sizeT, Nat.mod_eq_of_lt hsmall] at hbytes
    refine ⟨hbytes, ?_⟩
    obtain ⟨mask, rest, rfl, hrest⟩ : ∃ (mask : WebSocket.Mask) (rest : Bytes),
        bytes = mask.bytes ++ rest ∧ rest.length = length := by
      have hmask : (bytes.take 4).length = 4 := by
        rw [List.length_take, hbytes]
        omega
      obtain ⟨m0, m1, m2, m3, hfour⟩ := List.length_eq_four.mp hmask
      refine ⟨⟨m0, m1, m2, m3⟩, bytes.drop 4, ?_, ?_⟩
      · rw [WebSocket.Mask.bytes, ← hfour, List.take_append_drop]
      · rw [List.length_drop, hbytes]
        omega
    refine ⟨mask.apply rest, by simp [hrest], ?_⟩
    have hmasked := handleContent_masked hbuf mask (mask.apply rest) head
    rw [mask.apply_apply, mask.length_apply, hrest] at hmasked
    rw [hhandle, ← hmasked, ← hreading]
  · right
    rw [hhandle]
    have hshort : bytes.length < 4 := by
      rw [hbytes, sizeT]
      omega
    unfold handleContent
    split
    · rename_i hcons
      dsimp only at hcons
      rw [hcons] at hshort
      simp only [List.length_cons] at hshort
      omega
    · rfl

theorem sized_content {config : SocketConfig} {total : Nat} {c : Connection} {received : Bytes}
    (h : Sized config total ⟨c, received⟩) (htotal : total < 2 ^ 64) {length : Nat} {head : UInt8}
    (hreading : c.reading = .content length head) (hn : sizeT (4 + length) ≤ received.length) :
    Sized config total ⟨handle config c (received.take (sizeT (4 + length))),
      received.drop (sizeT (4 + length))⟩ := by
  have hbuf : c.streambuf = [] := h.buffer (by simp [hreading])
  obtain ⟨hlength, hlimit⟩ := h.content length head hreading
  have hheld := h.held
  dsimp only at hheld hlimit
  have hbytes : (received.take (sizeT (4 + length))).length = sizeT (4 + length) := by
    rw [List.length_take]
    omega
  have hdrop : (received.drop (sizeT (4 + length))).length
      = received.length - sizeT (4 + length) := List.length_drop
  -- `4 + length` may wrap round; then fewer than four bytes are read, and no mask
  rcases handle_content config hbuf hreading hlength hbytes with
    ⟨hfull, payload, rfl, hhandle⟩ | hhandle
  · rw [hhandle]
    have heq := heldLength_eq h.fragmented
    dsimp only at heq
    rw [hbytes] at hfull
    have hsmall : payload.length + c.fragmentedLength < 2 ^ 64 := by omega
    rw [sizeT, Nat.mod_eq_of_lt hsmall] at hlimit
    -- the guard was passed without overflow, for the payload is here
    have hfits := fits_filled h.fragmented hlimit hsmall head
    have hreceive := heldLength_receive c head payload
    have hdone := dispatched (c.keepFragmented head (c.filled head payload)) payload.length head
      (c.filled head payload)
    refine ⟨?_, ?_, ?_, ?_, ?_, ?_⟩
    · dsimp only
      rw [hdrop]
      omega
    · intro _
      exact hdone.streambuf.trans ((keepFragmented_streambuf c head _).trans hbuf)
    · intro m hm
      rcases fragmented_receive hm with hold | rfl
      · exact h.fragmented m hold
      · exact hfits
    · intro length' head' hcontent
      rcases hdone.reading with hfirst | hended
      · exact absurd (hfirst.symm.trans hcontent) (by simp)
      · exact absurd (hended.symm.trans hcontent) (by simp)
    · intro n head' hwidth
      rcases hdone.reading with hfirst | hended
      · exact absurd (hfirst.symm.trans hwidth) (by simp)
      · exact absurd (hended.symm.trans hwidth) (by simp)
    · intro m hm
      rcases messages_receive hm with hold | rfl
      · exact h.messages m hold
      · exact hfits
  · rw [hhandle]
    refine ⟨?_, fun hne => absurd rfl hne, h.fragmented, ?_, ?_, h.messages⟩
    · dsimp only [heldLength] at hheld ⊢
      rw [hdrop]
      omega
    · intro length' head' hcontent
      exact absurd hcontent (by simp)
    · intro n head' hwidth
      exact absurd hwidth (by simp)

/-- Where no message is touched, only the read under way has to be looked at. -/
theorem Sized.of_same {config : SocketConfig} {total : Nat} {x y : Link Connection}
    (h : Sized config total x)
    (hfragmented : y.state.fragmentedInMessage = x.state.fragmentedInMessage)
    (hlog : ∀ m, .onMessage m ∈ y.state.log → .onMessage m ∈ x.state.log)
    (hreceived : y.received.length ≤ x.received.length)
    (hbuffer : y.state.reading ≠ .ended → y.state.streambuf = [])
    (hcontent : ∀ length head, y.state.reading = .content length head →
      length < 2 ^ 64 ∧ sizeT (length + y.state.fragmentedLength) ≤ config.maxMessageSize)
    (hwidth : ∀ n head, y.state.reading = .lengthBytes n head → n ≤ 8) :
    Sized config total y := by
  refine ⟨?_, hbuffer, ?_, hcontent, hwidth, fun m hm => h.messages m (hlog m hm)⟩
  · have hheld := h.held
    unfold heldLength at hheld ⊢
    rw [hfragmented]
    omega
  · rw [hfragmented]
    exact h.fragmented

/-- Asking for a payload, or refusing it. -/
theorem sized_readMessageContent {config : SocketConfig} {total : Nat} {x : Link Connection}
    (h : Sized config total x) {c : Connection} (received : Bytes) (hbuf : c.streambuf = [])
    (hfragmented : c.fragmentedInMessage = x.state.fragmentedInMessage)
    (hlog : c.log = x.state.log) (hreceived : received.length ≤ x.received.length)
    {length : Nat} (hlength : length < 2 ^ 64) (head : UInt8) :
    Sized config total ⟨readMessageContent config c length head, received⟩ := by
  unfold readMessageContent
  split
  · have hclose := untouched_close (c.connectionError .messageSize) 1009 (utf8 "message too big")
    refine h.of_same (hclose.fragmented.trans hfragmented) ?_ hreceived
      (fun hne => absurd rfl hne) (fun _ _ hc => absurd hc (by simp [connectionClose, logged]))
      (fun _ _ hc => absurd hc (by simp [connectionClose, logged]))
    intro m hm
    have herror := hclose.messages m hm
    rw [← hlog]
    simpa [connectionError, logged] using herror
  · rename_i hlimit
    refine h.of_same hfragmented (fun m hm => hlog ▸ hm) hreceived (fun _ => hbuf) ?_
      (fun _ _ hc => absurd hc (by simp))
    intro length' head' heq
    obtain ⟨rfl, rfl⟩ := Reading.content.inj heq
    exact ⟨hlength, by simpa [fragmentedLength] using hlimit⟩

/-- The first two bytes of a frame. -/
theorem sized_first {config : SocketConfig} {total : Nat} {c : Connection} {received : Bytes}
    (h : Sized config total ⟨c, received⟩) (hreading : c.reading = .firstBytes)
    (hdrop : (received.drop 2).length ≤ received.length) (htake : (received.take 2).length = 2) :
    Sized config total ⟨handle config c (received.take 2), received.drop 2⟩ := by
  have hbuf : c.streambuf = [] := h.buffer (by simp [hreading])
  obtain ⟨first, second, htwo⟩ := List.length_eq_two.mp htake
  have hhandle : handle config c (received.take 2)
      = handleFirstBytes config { c with streambuf := [first, second] } := by
    simp only [handle, hreading, hbuf, List.nil_append, htwo]
  rw [hhandle]
  simp only [handleFirstBytes]
  split
  · -- no mask
    have hclose := untouched_close { c with streambuf := [] } 1002
      (utf8 "message from client not masked")
    exact h.of_same hclose.fragmented hclose.messages hdrop (fun hne => absurd rfl hne)
      (fun _ _ hc => absurd hc (by simp [connectionClose, logged]))
      (fun _ _ hc => absurd hc (by simp [connectionClose, logged]))
  · split
    · refine h.of_same rfl (fun m hm => hm) hdrop (fun _ => rfl) ?_ ?_
      · intro length head hc
        exact absurd hc (by simp)
      · intro n head hc
        obtain ⟨rfl, _⟩ := Reading.lengthBytes.inj hc
        decide
    · split
      · refine h.of_same rfl (fun m hm => hm) hdrop (fun _ => rfl) ?_ ?_
        · intro length head hc
          exact absurd hc (by simp)
        · intro n head hc
          obtain ⟨rfl, _⟩ := Reading.lengthBytes.inj hc
          decide
      · have hlength : (second &&& 127).toNat < 2 ^ 64 := by
          have := (second &&& 127).toNat_lt
          omega
        exact sized_readMessageContent (c := { c with streambuf := [] }) h (received.drop 2) rfl rfl
          rfl hdrop hlength first

theorem sized_complete {config : SocketConfig} {total : Nat} {x y : Link Connection}
    (h : Sized config total x) (htotal : total < 2 ^ 64)
    (hstep : (reader config).complete x = some y) : Sized config total y := by
  obtain ⟨n, hneed, hn, rfl⟩ := Reader.complete_eq_some.mp hstep
  obtain ⟨c, received⟩ := x
  have hbuf : c.streambuf = [] := h.buffer (reading_of_need hneed)
  have hdrop : (received.drop n).length ≤ received.length := by simp
  have htake : (received.take n).length = n := by simpa using hn
  -- only the read of a payload can make a message
  cases hreading : c.reading with
  | content length head =>
      obtain rfl : sizeT (4 + length) = n := by
        simpa [reader, need, hreading] using hneed
      exact sized_content h htotal hreading hn
  | ended => exact absurd hreading (reading_of_need hneed)
  | lengthBytes numBytes head =>
      obtain rfl : numBytes = n := by simpa [reader, need, hreading] using hneed
      have hhandle : handle config c (received.take numBytes)
          = readMessageContent config { c with streambuf := [] }
            (ofBigEndian (received.take numBytes)) head := by
        simp only [handle, hreading, hbuf, List.nil_append, handleLengthBytes,
          List.take_of_length_le htake.le, List.drop_of_length_le htake.le]
      have hwidth : numBytes ≤ 8 := h.width numBytes head hreading
      have hlength : ofBigEndian (received.take numBytes) < 2 ^ 64 := by
        have hlt := ofBigEndian_lt (received.take numBytes)
        have hpow : 256 ^ numBytes ≤ 256 ^ 8 := Nat.pow_le_pow_right (by decide) hwidth
        rw [htake] at hlt
        omega
      have hcontent := sized_readMessageContent (c := { c with streambuf := [] }) h
        (received.drop numBytes) rfl rfl rfl hdrop hlength head
      rw [← hhandle] at hcontent
      exact hcontent
  | firstBytes =>
      obtain rfl : 2 = n := by simpa [reader, need, hreading] using hneed
      exact sized_first h hreading hdrop htake

theorem sized_fail {config : SocketConfig} {total : Nat} {x : Link Connection}
    (h : Sized config total x) (failure : Failure) :
    Sized config total { x with state := x.state.fail failure } := by
  cases failure with
  | error ec =>
      refine h.of_same rfl ?_ le_rfl (fun hne => absurd rfl hne)
        (fun _ _ hc => absurd hc (by simp [fail, connectionError, logged]))
        (fun _ _ hc => absurd hc (by simp [fail, connectionError, logged]))
      intro m hm
      simpa [fail, connectionError, logged] using hm
  | stopped =>
      exact h.of_same rfl (fun m hm => hm) le_rfl (fun hne => absurd rfl hne)
        (fun _ _ hc => absurd hc (by simp [fail])) (fun _ _ hc => absurd hc (by simp [fail]))
  | empty =>
      cases hreading : x.state.reading with
      | firstBytes =>
          have hsame : x.state.fail .empty = x.state := by
            obtain ⟨⟨streambuf, fragmented, closed, reading, log, undefined⟩, received⟩ := x
            obtain rfl : reading = .firstBytes := hreading
            rfl
          rw [hsame]
          exact h
      | _ =>
          refine h.of_same ?_ ?_ le_rfl ?_ ?_ ?_ <;> simp [fail, hreading]

theorem sized_step {config : SocketConfig} {total : Nat} {x y : Link Connection}
    {e : Event Failure} (h : Sized config total x) (htotal : total < 2 ^ 64)
    (hstep : (reader config).step x e = some y) :
    Sized config (total + (Reader.arrived [e]).length) y := by
  have hmore : ∀ more, Sized config total y → Sized config (total + more) y := by
    intro more hy
    exact ⟨by have := hy.held; omega, hy.buffer, hy.fragmented, hy.content, hy.width, hy.messages⟩
  cases e with
  | arrive bytes =>
      obtain rfl := Option.some.inj hstep
      refine ⟨?_, h.buffer, h.fragmented, h.content, h.width, h.messages⟩
      have hheld := h.held
      simp only [Reader.arrived, List.append_nil, List.length_append]
      omega
  | complete => exact hmore _ (sized_complete h htotal hstep)
  | fail failure =>
      simp only [Reader.step] at hstep
      split at hstep
      · obtain rfl := Option.some.inj hstep
        exact hmore _ (sized_fail h failure)
      · exact absurd hstep (by simp)

/--
**A message is as long as it says and never longer than the limit**, in every run in
which fewer than 2 ^ 64 bytes arrive: whatever the client sends, and wherever a read
fails. (A length near 2 ^ 64 passes the guard by overflow, but its payload would have
to arrive.)
-/
theorem message_sizes (config : SocketConfig) {es : List (Event Failure)}
    (hes : (Reader.arrived es).length < 2 ^ 64) {y : Link Connection}
    (hrun : ((reader config).system .opened).run ⟨.opened, []⟩ es = some y) :
    ∀ m, .onMessage m ∈ y.state.log →
      m.size = m.string.length ∧ m.size ≤ config.maxMessageSize := by
  -- how much has arrived bounds what can be held, so it goes with the run
  have hsized := System.run_induction
    (P := fun es x => (Reader.arrived es).length < 2 ^ 64 →
      Sized config (Reader.arrived es).length x) ?_ ?_ hrun hes
  · exact hsized.messages
  · intro _
    refine ⟨le_rfl, fun _ => rfl, by simp [opened], ?_, ?_, by simp [opened]⟩
    · intro length head hc
      exact absurd hc (by simp [opened])
    · intro n head hc
      exact absurd hc (by simp [opened])
  · intro before x e z _ hx hstep hlt
    rw [Reader.arrived_append] at hlt ⊢
    rw [List.length_append] at hlt ⊢
    exact sized_step (hx (by omega)) (by omega) hstep

theorem message_sizes_pinged :
    ∃ y, ((reader {}).system .opened).run ⟨.opened, []⟩ pingedRun = some y
      ∧ ∀ m, .onMessage m ∈ y.state.log →
        m.size = m.string.length ∧ m.size ≤ 2 ^ 64 - 1 := by
  have hrun : (((reader {}).system .opened).run ⟨.opened, []⟩ pingedRun).isSome = true := by
    decide +kernel
  obtain ⟨y, hy⟩ := Option.isSome_iff_exists.mp hrun
  have hsmall : (Reader.arrived pingedRun).length < 2 ^ 64 := by decide +kernel
  exact ⟨y, hy, message_sizes {} hsmall hy⟩

end MobaDisplay
