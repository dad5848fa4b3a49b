import MobaDisplay.Proof.Upgrade

/-!
# A page at its display

The whole way of a page: its request goes to the http server, which hands the socket
over; the websocket server answers the handshake; and the page, having seen the answer it
expects, says what it has to say. The network cuts all of it as it likes, and the page
may be ahead of the server, which learns only later that its answer has been written.

`Stage` says how far the two servers are. Nothing of what the page says is lost between
them, and nothing is called that it has not said.
-/

namespace MobaDisplay

open Cxx Transition AsyncRead HttpConnection Connection
open WebSocket (Kind Said encodeSaid)
open Socket (displayRequest sampleServer)

/-- A request that the servers accept for the display. -/
structure DisplayRequest (server : HttpServer) (ws : WsServer) where
  message : RequestMessage
  key : Bytes
  sendable : Sendable server message []
  framing : Framing message.header [] [] []
  asks : AsksUpgrade server message
  path : ∃ regex ∈ ws.endpoint, regex.rmatch message.path = true
  keyField : fieldValues message.header (utf8 "Sec-WebSocket-Key") = [key]

namespace DisplayRequest

variable {server : HttpServer} {ws : WsServer}

/-- The answer a page waits for. -/
def expected (r : DisplayRequest server ws) : Bytes := (Handshake.accepted r.key).text ws

theorem expected_ne_nil (r : DisplayRequest server ws) : r.expected ≠ [] := by
  have hline : utf8 "HTTP/1.1 101 Web Socket Protocol Handshake\r\n" ≠ [] := by decide +kernel
  simp [expected, Handshake.text, hline]

theorem accepted (r : DisplayRequest server ws) :
    writeHandshake ws r.message = .accepted r.key :=
  writeHandshake_accepted.mpr ⟨r.path, ws.multimap.find_of_singleton r.keyField⟩

/-- A session with all of the request hands the connection over. -/
theorem found_eq (r : DisplayRequest server ws) :
    found server r.message [] [] = ⟨.upgraded r.message, [.upgrade r.message], false⟩ := by
  unfold found findResource
  rw [r.asks.1, r.asks.2]
  rfl

end DisplayRequest

/-- A socket of the program, and the page at its other end. -/
structure Visit where
  socket : Socket := {}
  /-- What the page has sent and has not arrived. -/
  outstanding : Bytes
  said : List Said := []

namespace Visit

inductive Action where
  /-- The page says something. -/
  | say (s : Said)
  /-- Some of what it has sent arrives. -/
  | deliver (n : Nat)
  /-- The program does something, or something fails. -/
  | program (a : Socket.Action)

variable {server : HttpServer} {ws : WsServer}

def step (r : DisplayRequest server ws) (v : Visit) : Action → Option Visit
  | .say s =>
      if v.socket.answer = r.expected then
        some { v with outstanding := v.outstanding ++ encodeSaid [s], said := v.said ++ [s] }
      else none
  | .deliver n =>
      if n ≤ v.outstanding.length then
        some { v with
          socket := { v.socket with received := v.socket.received ++ v.outstanding.take n }
          outstanding := v.outstanding.drop n }
      else none
  | .program (.arrive _) => none
  | .program a => (Socket.step server ws v.socket a).map fun socket => { v with socket := socket }

def system (r : DisplayRequest server ws) : System Visit Action where
  init := fun v => v = { outstanding := r.message.text }
  step := step r

/-- What has been logged on the websocket connection. -/
def log (v : Visit) : List Effect :=
  match v.socket.holder with
  | .websocket connection => connection.log
  | _ => []

/-- Something the program does when nothing fails. -/
def Calm : Socket.Action → Prop
  | .http (.complete _) => True
  | .http .responded => True
  | .written => True
  | .websocket .complete => True
  | _ => False

/-- The program has nothing to do. -/
def AtRest (server : HttpServer) (ws : WsServer) (v : Visit) : Prop :=
  ∀ a, Calm a → Socket.step server ws v.socket a = none

/-- Nobody reads the socket any more. -/
def Dead (s : Socket) : Prop :=
  (s.holder = .http ∧ s.http.session = .ended) ∨ s.holder = .nobody
    ∨ ∃ connection, s.holder = .websocket connection ∧ connection.reading = .ended

/-! ## How far the servers are -/

inductive Stage (r : DisplayRequest server ws) (v : Visit) : Prop where
  /-- The http server reads the request. -/
  | asking (holder : v.socket.holder = .http) (answer : v.socket.answer = [])
      (said : v.said = [])
      (reading : Underway server r.message [] [] [] v.socket.http
        (v.socket.received ++ v.outstanding))
      (waits : (wait server v.socket.http.session).isSome = true)
  /-- The websocket server answers, and what the page says stays in the socket. -/
  | answering (holder : v.socket.holder = .handshake (.accepted r.key))
      (rest : v.socket.received ++ v.outstanding = encodeSaid v.said)
  /-- It reads what the page says. -/
  | talking (connection : Connection) (holder : v.socket.holder = .websocket connection)
      (reads : (reader {}).Reads ⟨talking none [], encodeSaid v.said⟩
        ⟨connection, v.socket.received ++ v.outstanding⟩)
  | finished (dead : Dead v.socket) (talk ending : List Effect) (log : v.log = talk ++ ending)
      (heard : talk <+: v.said.flatMap heard) (silent : ∀ sendMsg, logCalls sendMsg ending = [])

theorem encodeSaid_append (said said' : List Said) :
    encodeSaid (said ++ said') = encodeSaid said ++ encodeSaid said' := by
  simp [encodeSaid]

/-- What a connection has logged is the beginning of what the page has said. -/
theorem log_of_reads {said : List Said} {connection : Connection} {rest : Bytes}
    (h : (reader {}).Reads ⟨talking none [], encodeSaid said⟩ ⟨connection, rest⟩) :
    connection.log <+: said.flatMap heard := by
  have hall := reads_said said [] []
  rw [List.append_nil] at hall
  have hunclosed : Unclosed connection := (reads_grows h (Or.inr rfl)).2
  exact (reads_grows (h.to_quiet hall (quiet_talking {} _)) hunclosed).1

theorem Stage.log_prefix {r : DisplayRequest server ws} {v : Visit} (h : Stage r v) :
    ∃ talk ending, v.log = talk ++ ending ∧ talk <+: v.said.flatMap heard
      ∧ ∀ sendMsg, logCalls sendMsg ending = [] := by
  cases h with
  | asking holder _ _ _ _ => exact ⟨[], [], by simp [log, holder], List.nil_prefix, fun _ => rfl⟩
  | answering holder _ => exact ⟨[], [], by simp [log, holder], List.nil_prefix, fun _ => rfl⟩
  | talking connection holder reads =>
      exact ⟨connection.log, [], by simp [log, holder], log_of_reads reads, fun _ => rfl⟩
  | finished _ talk ending hlog hheard hsilent => exact ⟨talk, ending, hlog, hheard, hsilent⟩

/-! ## What the page does -/

theorem stage_say {r : DisplayRequest server ws} {v : Visit} (h : Stage r v) (s : Said)
    (hanswer : v.socket.answer = r.expected) :
    Stage r { v with outstanding := v.outstanding ++ encodeSaid [s], said := v.said ++ [s] } := by
  -- while the request is being read there is no answer, and the page is silent
  cases h with
  | asking _ answer _ _ _ => exact absurd (hanswer.symm.trans answer) r.expected_ne_nil
  | answering holder rest =>
      refine .answering holder ?_
      rw [encodeSaid_append, ← rest, List.append_assoc]
  | talking connection holder reads =>
      refine .talking connection holder ?_
      have hmore := reads.append (encodeSaid [s])
      rw [← encodeSaid_append, List.append_assoc] at hmore
      exact hmore
  | finished dead talk ending hlog hheard hsilent =>
      refine .finished dead talk ending hlog (hheard.trans ?_) hsilent
      rw [List.flatMap_append]
      exact List.prefix_append _ _

/-- What arrives moves from the network into the socket. -/
theorem stage_deliver {r : DisplayRequest server ws} {v : Visit} (h : Stage r v) (n : Nat) :
    Stage r { v with
      socket := { v.socket with received := v.socket.received ++ v.outstanding.take n }
      outstanding := v.outstanding.drop n } := by
  have hsame : (v.socket.received ++ v.outstanding.take n) ++ v.outstanding.drop n
      = v.socket.received ++ v.outstanding := by
    rw [List.append_assoc, List.take_append_drop]
  cases h with
  | asking holder answer said reading waits =>
      exact .asking holder answer said (hsame.symm ▸ reading) waits
  | answering holder rest => exact .answering holder (hsame.trans rest)
  | talking connection holder reads => exact .talking connection holder (hsame.symm ▸ reads)
  | finished dead talk ending hlog hheard hsilent =>
      exact .finished dead talk ending hlog hheard hsilent

/-! ## What the program does -/

/-- A read of the request. -/
theorem stage_read {r : DisplayRequest server ws} {v : Visit} {n : Nat} {link : HttpLink}
    (holder : v.socket.holder = .http) (answer : v.socket.answer = []) (said : v.said = [])
    (reading : Underway server r.message [] [] [] v.socket.http
      (v.socket.received ++ v.outstanding))
    (hcomplete : HttpLink.complete server ⟨v.socket.http, v.socket.received⟩ n = some link) :
    Stage r { v with socket := Socket.upgrade ws { v.socket with
      http := link.connection, received := link.received } } := by
  obtain ⟨w, hwait, hn, haccepts, rfl⟩ := HttpLink.complete_eq_some.mp hcomplete
  rw [← List.take_append_drop n v.socket.received, List.append_assoc] at reading
  have hnext := underway_handle r.sendable reading hwait haccepts
  dsimp only
  -- the read was one of several, or it completed the request
  rcases underway_wait hnext with hwaits | ⟨hfound, hrest⟩
  · have hstay : ∀ s : Socket, s.http = handle server v.socket.http (v.socket.received.take n) →
        Socket.upgrade ws s = s := by
      intro s hs
      unfold Socket.upgrade
      rw [hs]
      split
      · rename_i m hsession
        rw [hsession] at hwaits
        cases hwaits
      · rfl
    rw [hstay _ rfl]
    exact .asking holder answer said hnext hwaits
  · rw [hfound, r.found_eq, Socket.upgrade]
    dsimp only
    rw [r.accepted]
    refine .answering rfl ?_
    rw [said]
    exact List.suffix_nil.mp hrest

theorem dead_http {s : Socket} {a : HttpLink.Action} (h : Dead s) (holder : s.holder = .http)
    (harrive : ∀ bytes, a ≠ .arrive bytes) :
    HttpLink.step server ⟨s.http, s.received⟩ a = none := by
  rcases h with ⟨-, hended⟩ | hnobody | ⟨connection, hconnection, -⟩
  · cases a with
    | arrive bytes => exact absurd rfl (harrive bytes)
    | complete n => simp [HttpLink.step, HttpLink.complete, hended, wait]
    | responded => simp [HttpLink.step, hended]
    | fail ec => simp [HttpLink.step, HttpLink.pending, hended, wait]
    | stop => simp [HttpLink.step, HttpLink.pending, hended, wait]
  · exact absurd (holder.symm.trans hnobody) (by simp)
  · exact absurd (holder.symm.trans hconnection) (by simp)

theorem stage_http {r : DisplayRequest server ws} {v : Visit} {a : HttpLink.Action}
    {socket : Socket} (h : Stage r v) (holder : v.socket.holder = .http)
    (harrive : ∀ bytes, a ≠ .arrive bytes)
    (hstep : Socket.httpStep server ws v.socket a = some socket) :
    Stage r { v with socket := socket } := by
  obtain ⟨link, hlink, rfl⟩ := Option.map_eq_some_iff.mp hstep
  cases h with
  | answering held _ => exact absurd (holder.symm.trans held) (by simp)
  | talking _ held _ => exact absurd (holder.symm.trans held) (by simp)
  | finished dead _ _ _ _ _ =>
      rw [dead_http dead holder harrive] at hlink
      cases hlink
  | asking _ answer said reading waits =>
      have hnolog : ∀ s : Socket, s.holder = .http → Visit.log ⟨s, v.outstanding, v.said⟩ = [] := by
        intro s hs
        simp [log, hs]
      cases a with
      | arrive bytes => exact absurd rfl (harrive bytes)
      | complete n => exact stage_read holder answer said reading hlink
      | responded =>
          obtain ⟨m, hsession, -⟩ := HttpLink.responded_eq_some hlink
          dsimp only at hsession
          rw [hsession] at waits
          cases waits
      | fail ec =>
          obtain ⟨-, ⟨⟩⟩ := Option.ite_none_right_eq_some.mp hlink
          exact .finished (.inl ⟨holder, rfl⟩) [] [] (hnolog _ holder) List.nil_prefix fun _ => rfl
      | stop =>
          obtain ⟨-, ⟨⟩⟩ := Option.ite_none_right_eq_some.mp hlink
          exact .finished (.inl ⟨holder, rfl⟩) [] [] (hnolog _ holder) List.nil_prefix fun _ => rfl

/-- Only what `Stage.answering` says has a handshake to be written. -/
theorem Stage.of_handshake {r : DisplayRequest server ws} {v : Visit} {shake : Handshake}
    (h : Stage r v) (holder : v.socket.holder = .handshake shake) :
    shake = .accepted r.key ∧ v.socket.received ++ v.outstanding = encodeSaid v.said := by
  cases h with
  | asking held _ _ _ _ => exact absurd (holder.symm.trans held) (by simp)
  | answering held rest =>
      rw [holder] at held
      cases held
      exact ⟨rfl, rest⟩
  | talking _ held _ => exact absurd (holder.symm.trans held) (by simp)
  | finished dead _ _ _ _ _ =>
      rcases dead with ⟨held, -⟩ | held | ⟨_, held, -⟩
      · exact absurd (holder.symm.trans held) (by simp)
      · exact absurd (holder.symm.trans held) (by simp)
      · exact absurd (holder.symm.trans held) (by simp)

/-- A failed read ends the connection, or begins it again where it was. -/
theorem fail_cases {connection : Connection} (hreading : connection.reading ≠ .ended)
    (failure : Failure) :
    connection.fail failure = connection
      ∨ (connection.fail failure).reading = .ended ∧ ∃ ending,
          (connection.fail failure).log = connection.log ++ ending
            ∧ ∀ sendMsg, logCalls sendMsg ending = [] := by
  cases failure with
  | error ec => exact .inr ⟨rfl, _, rfl, fun _ => rfl⟩
  | stopped => exact .inr ⟨rfl, [], by simp [fail], fun _ => rfl⟩
  | empty =>
      cases hfirst : connection.reading with
      | firstBytes =>
          refine .inl ?_
          obtain ⟨⟩ := connection
          dsimp only at hfirst
          subst hfirst
          rfl
      | lengthBytes n head =>
          exact .inr ⟨by simp [fail, hfirst], [], by simp [fail, hfirst], fun _ => rfl⟩
      | content n head =>
          exact .inr ⟨by simp [fail, hfirst], [], by simp [fail, hfirst], fun _ => rfl⟩
      | ended => exact absurd hfirst hreading

theorem stage_websocket {r : DisplayRequest server ws} (hconfig : ws.config = {}) {v : Visit}
    {connection : Connection} {e : Event Failure} {socket : Socket} (h : Stage r v)
    (holder : v.socket.holder = .websocket connection) (harrive : ∀ bytes, e ≠ .arrive bytes)
    (hstep : Socket.websocketStep ws v.socket connection e = some socket) :
    Stage r { v with socket := socket } := by
  obtain ⟨link, hlink, rfl⟩ := Option.map_eq_some_iff.mp hstep
  rw [hconfig] at hlink
  have hneed : connection.reading ≠ .ended := by
    intro hended
    cases e with
    | arrive bytes => exact harrive bytes rfl
    | complete => simp [Reader.step, Reader.complete, reader, need, hended] at hlink
    | fail failure => simp [Reader.step, reader, need, hended] at hlink
  cases h with
  | asking held _ _ _ _ => exact absurd (holder.symm.trans held) (by simp)
  | answering held _ => exact absurd (holder.symm.trans held) (by simp)
  | finished dead _ _ _ _ _ =>
      rcases dead with ⟨held, -⟩ | held | ⟨_, held, hended⟩
      · exact absurd (holder.symm.trans held) (by simp)
      · exact absurd (holder.symm.trans held) (by simp)
      · rw [holder] at held
        cases held
        exact absurd hended hneed
  | talking _ held reads =>
      rw [holder] at held
      cases held
      cases e with
      | arrive bytes => exact absurd rfl (harrive bytes)
      | complete =>
          refine .talking link.state rfl ?_
          exact reads.tail (Reader.complete_append hlink v.outstanding)
      | fail failure =>
          obtain ⟨-, ⟨⟩⟩ := Option.ite_none_right_eq_some.mp hlink
          -- a read that failed with nothing in it is begun again
          rcases fail_cases hneed failure with hsame | ⟨hended, ending, hlog, hsilent⟩
          · refine .talking (connection.fail failure) rfl ?_
            rw [hsame]
            exact reads
          · exact .finished (.inr (.inr ⟨_, rfl, hended⟩)) connection.log ending hlog
              (log_of_reads reads) hsilent

theorem stage_program {r : DisplayRequest server ws} (hconfig : ws.config = {}) {v : Visit}
    {a : Socket.Action} {socket : Socket} (h : Stage r v) (harrive : ∀ bytes, a ≠ .arrive bytes)
    (hstep : Socket.step server ws v.socket a = some socket) :
    Stage r { v with socket := socket } := by
  cases a with
  | arrive bytes => exact absurd rfl (harrive bytes)
  | http a =>
      simp only [Socket.step] at hstep
      split at hstep
      · cases hstep
      · rename_i holder hnot
        exact stage_http h holder hnot hstep
      · cases hstep
  | written =>
      simp only [Socket.step] at hstep
      split at hstep
      · rename_i key holder
        obtain ⟨-, rest⟩ := h.of_handshake holder
        cases hstep
        refine .talking .opened rfl ?_
        rw [← rest]
        exact Reader.Reads.refl _
      · rename_i shake hnot holder
        obtain ⟨haccepted, -⟩ := h.of_handshake holder
        exact absurd haccepted (hnot _)
      · cases hstep
  | writeFailed ec =>
      simp only [Socket.step] at hstep
      split at hstep
      · cases hstep
        exact .finished (.inr (.inr ⟨_, rfl, rfl⟩)) [] _ rfl List.nil_prefix fun _ => rfl
      · rename_i shake hnot holder
        obtain ⟨haccepted, -⟩ := h.of_handshake holder
        exact absurd haccepted (hnot _)
      · cases hstep
  | writeStopped =>
      simp only [Socket.step] at hstep
      split at hstep
      · cases hstep
        exact .finished (.inr (.inl rfl)) [] [] rfl List.nil_prefix fun _ => rfl
      · cases hstep
  | websocket e =>
      simp only [Socket.step] at hstep
      split at hstep
      · cases hstep
      · rename_i connection holder hnot
        exact stage_websocket hconfig h holder hnot hstep
      · cases hstep

theorem stage_step {r : DisplayRequest server ws} (hconfig : ws.config = {}) {v v' : Visit}
    {a : Action} (h : Stage r v) (hstep : step r v a = some v') : Stage r v' := by
  cases a with
  | say s =>
      obtain ⟨hanswer, ⟨⟩⟩ := Option.ite_none_right_eq_some.mp hstep
      exact stage_say h s hanswer
  | deliver n =>
      obtain ⟨-, ⟨⟩⟩ := Option.ite_none_right_eq_some.mp hstep
      exact stage_deliver h n
  | program b =>
      cases b with
      | arrive bytes => cases hstep
      | _ =>
          obtain ⟨socket, hsocket, rfl⟩ := Option.map_eq_some_iff.mp hstep
          exact stage_program hconfig h (by rintro _ ⟨⟩) hsocket

theorem stage_reachable {r : DisplayRequest server ws} (hconfig : ws.config = {}) {v : Visit}
    (h : (system r).Reachable v) : Stage r v := by
  refine System.Reachable.invariant (P := Stage r) ?_ ?_ h
  · rintro v rfl
    refine .asking rfl rfl rfl ?_ rfl
    have hstart : Underway server r.message [] [] [] ⟨.header [], [], false⟩
        (r.message.text ++ []) := underway_start r.framing
    rwa [List.append_nil] at hstart
  · exact fun v a v' _ hv hstep => stage_step hconfig hv hstep

/-! ## When everything is there -/

/-- While the connection is alive, there is something to do until all has been heard. -/
theorem heard_of_rest {r : DisplayRequest server ws} (hconfig : ws.config = {}) {v : Visit}
    (h : Stage r v) (harrived : v.outstanding = []) (hrest : AtRest server ws v)
    (halive : ¬ Dead v.socket) : v.log = v.said.flatMap heard := by
  -- the first two stages have something left to do, and so has talk that is not all read
  cases h with
  | finished dead _ _ _ _ _ => exact absurd dead halive
  | answering holder _ =>
      have hwritten := hrest .written trivial
      simp [Socket.step, holder] at hwritten
  | asking holder _ _ reading waits =>
      rw [harrived, List.append_nil] at reading
      rcases underway_progress r.sendable reading with ⟨hfound, -⟩ | ⟨w, n, hwait, hn, haccepts⟩
      · rw [hfound, wait_found] at waits
        cases waits
      · have hcomplete := HttpLink.complete_eq_some (x := ⟨v.socket.http, v.socket.received⟩)
          |>.mpr ⟨w, hwait, hn, haccepts, rfl⟩
        have hread := hrest (.http (.complete n)) trivial
        simp [Socket.step, holder, Socket.httpStep, HttpLink.step, hcomplete] at hread
  | talking connection holder reads =>
      rw [harrived, List.append_nil] at reads
      have hall := reads_said v.said [] []
      rw [List.append_nil] at hall
      have hquiet : (reader {}).Quiet ⟨connection, v.socket.received⟩ := by
        have hread := hrest (.websocket .complete) trivial
        simp only [Socket.step, holder, Socket.websocketStep, Option.map_eq_none_iff, hconfig]
          at hread
        exact hread
      have hsame := (hall.to_quiet reads hquiet).eq_of_quiet (quiet_talking {} _)
      have hconnection : connection = talking none (v.said.flatMap heard) :=
        congrArg Link.state hsame
      rw [log, holder, hconnection]
      rfl

/--
From its request on, through the hand-over and the handshake, **a page is heard**: the
control system gets the commands of what the page says, in their order, each once,
however the network cuts the request and the frames and however far the page is ahead of
the server. When all of it has arrived, the program has nothing left to do and the
connection is alive, it has got all of them.
-/
theorem visit_heard {r : DisplayRequest server ws} (hconfig : ws.config = {}) {v : Visit}
    (h : (system r).Reachable v) (sendMsg : SendMsg) {fs : List Frame}
    (hsaid : v.said.filterMap Said.content = fs.map fun f => (Kind.text, utf8 f.text)) :
    logCalls sendMsg v.log <+: fs.map Frame.call
      ∧ (v.outstanding = [] → AtRest server ws v → ¬ Dead v.socket →
          logCalls sendMsg v.log = fs.map Frame.call) := by
  have hcalls : logCalls sendMsg (v.said.flatMap heard) = fs.map Frame.call := by
    rw [logCalls_said, hsaid, List.flatMap_map]
    simp only [calls_frame]
    exact List.map_eq_flatMap.symm
  have hstage := stage_reachable hconfig h
  refine ⟨?_, ?_⟩
  · obtain ⟨talk, ending, hlog, ⟨rest, hrest⟩, hsilent⟩ := hstage.log_prefix
    refine ⟨logCalls sendMsg rest, ?_⟩
    rw [hlog, logCalls_append, hsilent, List.append_nil, ← logCalls_append, hrest]
    exact hcalls
  · intro harrived hrest halive
    rw [heard_of_rest hconfig hstage harrived hrest halive]
    exact hcalls

/-! ## The emergency button -/

theorem displayRequest_sendable : Sendable httpServer displayRequest [] := by
  refine ⟨⟨by decide +kernel, by decide +kernel, by decide +kernel, by decide +kernel, ?_⟩,
    by decide +kernel, by decide, by decide⟩
  have hfields : ∀ f ∈ displayRequest.header,
      (colon ∉ f.1 ∧ lineFeed ∉ f.1) ∧ lineFeed ∉ f.2 ∧ f.2.head? ≠ some blank := by
    decide +kernel
  intro f hf
  obtain ⟨⟨hcolon, hname⟩, hvalue, hhead⟩ := hfields f hf
  exact ⟨hcolon, hname, hvalue, hhead⟩

def displayVisit : DisplayRequest httpServer sampleServer where
  message := displayRequest
  key := utf8 "dGhlIHNhbXBsZSBub25jZQ=="
  sendable := displayRequest_sendable
  framing := .none (by decide +kernel) (by decide +kernel)
  asks := ⟨rfl, by decide +kernel⟩
  path := ⟨displayRegex, List.mem_singleton.mpr rfl, by decide +kernel⟩
  keyField := by decide +kernel

/-- The command is on its way before the server knows that its answer has been written. -/
def emergencyVisit : List Action :=
  [.deliver 30, .deliver (displayRequest.text.length - 30),
    .program (.http (.complete displayRequest.text.length)), .say pinged, .deliver 3,
    .program .written, .program (.websocket .complete), .deliver 24]
    ++ List.replicate 5 (.program (.websocket .complete))

theorem visit_heard_emergency :
    ∃ v, (system displayVisit).run { outstanding := displayRequest.text } emergencyVisit = some v
      ∧ logCalls sendMsgOk v.log = [⟨7, 2, utf8 "true"⟩] := by
  have hend : ((system displayVisit).run { outstanding := displayRequest.text }
      emergencyVisit).map (fun v => (v.socket.holder, v.socket.received, v.outstanding))
        = some (.websocket (talking none ([pinged].flatMap heard)), [], []) := by
    decide +kernel
  have hcontent : ((system displayVisit).run { outstanding := displayRequest.text }
      emergencyVisit).map (fun v => v.said.filterMap Said.content)
        = some ([Frame.emergency true].map fun f => (Kind.text, utf8 f.text)) := by
    decide +kernel
  obtain ⟨v, hrun, hv⟩ := Option.map_eq_some_iff.mp hend
  obtain ⟨holder, hv⟩ := Prod.mk.inj hv
  obtain ⟨received, outstanding⟩ := Prod.mk.inj hv
  have said : v.said.filterMap Said.content
      = [Frame.emergency true].map fun f => (Kind.text, utf8 f.text) := by
    rw [hrun] at hcontent
    exact Option.some.inj hcontent
  have hrest : AtRest httpServer sampleServer v := by
    intro a ha
    cases a with
    | http a => simp [Socket.step, holder]
    | written => simp [Socket.step, holder]
    | websocket e =>
        cases e with
        | complete => simp [Socket.step, holder, Socket.websocketStep, received, Reader.step,
            Reader.complete, reader, need, talking]
        | _ => exact ha.elim
    | _ => exact ha.elim
  have halive : ¬ Dead v.socket := by
    rintro (⟨held, -⟩ | held | ⟨_, held, hended⟩)
    · exact absurd (holder.symm.trans held) (by simp)
    · exact absurd (holder.symm.trans held) (by simp)
    · rw [holder] at held
      cases held
      cases hended
  have hheard := visit_heard rfl (System.Reachable.run (.init rfl) hrun) sendMsgOk said
  exact ⟨v, hrun, hheard.2 outstanding hrest halive⟩

end Visit

end MobaDisplay
