import MobaDisplay.Proof.Session

/-!
# One request after the other

A browser uses a connection for one request after the other: it sends the next one when
it gets an answer to the last. The server begins each with a stream buffer of its own,
so what a read took beyond a request would be lost; but a browser that waits has sent
nothing by then.

`Stage` says how far the two are with each other. The bytes of the next request may
come in while the last response is still being written: they stay in the socket.
-/

namespace MobaDisplay

open Cxx Streambuf Transition HttpConnection

/-- A request whose length is known from its header, and for which the server has room. -/
structure PlainRequest (server : HttpServer) where
  message : RequestMessage
  content : Bytes
  sendable : Sendable server message content
  framing : Framing message.header content content []

namespace PlainRequest

variable {server : HttpServer}

def text (r : PlainRequest server) : Bytes := r.message.text ++ r.content

/-- What the resource function is called with. -/
def call (r : PlainRequest server) : HttpEffect := .resource r.message r.content

end PlainRequest

/-- The calls of resource functions. -/
def resourceCalls (log : List HttpEffect) : List HttpEffect :=
  log.filter fun e => match e with
    | .resource _ _ => true
    | _ => false

/-- A connection, and the browser at its other end. -/
structure Browsing (server : HttpServer) where
  link : HttpLink := {}
  todo : List (PlainRequest server)
  asked : List (PlainRequest server) := []
  /-- What of the last request has not arrived. -/
  outstanding : Bytes := []

namespace Browsing

variable {server : HttpServer}

inductive Action where
  /-- The browser begins to send the next request. -/
  | ask
  /-- Some of it arrives. -/
  | deliver (n : Nat)
  /-- The server does something, or something fails. -/
  | server (a : HttpLink.Action)

/-- Every request has been handed to its resource function. -/
def Answered (s : Browsing server) : Prop :=
  (resourceCalls s.link.connection.log).length = s.asked.length

instance (s : Browsing server) : Decidable s.Answered := inferInstanceAs (Decidable (_ = _))

def step (s : Browsing server) : Action → Option (Browsing server)
  | .ask =>
      match s.todo with
      | [] => none
      | r :: todo =>
          if s.outstanding = [] ∧ s.Answered then
            some { s with todo := todo, asked := s.asked ++ [r], outstanding := r.text }
          else none
  | .deliver n =>
      if n ≤ s.outstanding.length then
        some { s with
          link := { s.link with received := s.link.received ++ s.outstanding.take n }
          outstanding := s.outstanding.drop n }
      else none
  | .server (.arrive _) => none
  | .server a => (HttpLink.step server s.link a).map fun link => { s with link := link }

def system (server : HttpServer) : System (Browsing server) Action where
  init := fun s => ∃ todo, s = { todo := todo }
  step := step

/-! ## How far the two are -/

/-- Nothing more will be read. -/
def Over (c : HttpConnection) : Prop :=
  c.session = .ended ∨ ∃ request, c.session = .upgraded request

/-- The requests whose resource function was called, and the one under way. -/
inductive Stage (s : Browsing server) : Prop where
  /-- Every request has been handed over. -/
  | idle (calls : resourceCalls s.link.connection.log = s.asked.map PlainRequest.call)
      (empty : s.link.received ++ s.outstanding = [])
      (session : s.link.connection.session = .header []
        ∨ ∃ request, s.link.connection.session = .responding request)
      (sound : s.link.connection.terminated = false)
  /-- The next one comes in while a response is being written. -/
  | early (before : List (PlainRequest server)) (r : PlainRequest server)
      (asked : s.asked = before ++ [r])
      (calls : resourceCalls s.link.connection.log = before.map PlainRequest.call)
      (text : s.link.received ++ s.outstanding = r.text) (request : RequestMessage)
      (session : s.link.connection.session = .responding request)
      (sound : s.link.connection.terminated = false)
  /-- It is being read. -/
  | underway (before : List (PlainRequest server)) (r : PlainRequest server)
      (log : List HttpEffect) (asked : s.asked = before ++ [r])
      (calls : resourceCalls log = before.map PlainRequest.call)
      (logged : s.link.connection.log = log)
      (reading : Underway server r.message r.content [] log s.link.connection
        (s.link.received ++ s.outstanding))
      (waits : (wait server s.link.connection.session).isSome = true)
  | finished (before after : List (PlainRequest server)) (asked : s.asked = before ++ after)
      (calls : resourceCalls s.link.connection.log = before.map PlainRequest.call)
      (short : after.length ≤ 1) (gone : Over s.link.connection)
      (sound : s.link.connection.terminated = false)

@[simp] theorem resourceCalls_nil : resourceCalls [] = [] := rfl

@[simp] theorem resourceCalls_resource (log : List HttpEffect) (m : RequestMessage)
    (content : Bytes) :
    resourceCalls (log ++ [.resource m content]) = resourceCalls log ++ [.resource m content] := by
  simp [resourceCalls]

@[simp] theorem resourceCalls_upgrade (log : List HttpEffect) (m : RequestMessage) :
    resourceCalls (log ++ [.upgrade m]) = resourceCalls log := by
  simp [resourceCalls]

@[simp] theorem resourceCalls_onError (log : List HttpEffect) (ec : ErrorCode) :
    resourceCalls (log ++ [.onError ec]) = resourceCalls log := by
  simp [resourceCalls]

/-- What `find_resource` makes of a request. -/
theorem found_cases (server : HttpServer) (m : RequestMessage) (content : Bytes)
    (log : List HttpEffect) :
    found server m content log = ⟨.responding m, log ++ [.resource m content], false⟩
      ∨ (Over (found server m content log)
        ∧ resourceCalls (found server m content log).log = resourceCalls log
        ∧ (found server m content log).terminated = false) := by
  unfold found findResource
  split
  · exact .inr ⟨.inr ⟨m, rfl⟩, by simp [logged], rfl⟩
  · split
    · exact .inl rfl
    · exact .inr ⟨.inl rfl, rfl, rfl⟩

theorem wait_over {c : HttpConnection} (h : Over c) : wait server c.session = none := by
  rcases h with h | ⟨request, h⟩
  · rw [h]
    rfl
  · rw [h]
    rfl

/-- A request that is read completely leads on to its response, or to the end. -/
theorem stage_of_underway {s : Browsing server} {before : List (PlainRequest server)}
    {r : PlainRequest server} {log : List HttpEffect} (asked : s.asked = before ++ [r])
    (calls : resourceCalls log = before.map PlainRequest.call)
    (h : Underway server r.message r.content [] log s.link.connection
      (s.link.received ++ s.outstanding)) : Stage s := by
  rcases underway_wait h with hwait | ⟨hfound, hrest⟩
  · rcases underway_log h with hfound | ⟨hlog, -⟩
    · rw [hfound, wait_found] at hwait
      cases hwait
    · exact .underway before r log asked calls hlog h hwait
  · rcases found_cases server r.message r.content log with hcalled | ⟨hover, hcalls, hsound⟩
    · rw [hcalled] at hfound
      refine .idle ?_ (List.suffix_nil.mp hrest) (.inr ⟨r.message, by rw [hfound]⟩) (by rw [hfound])
      rw [hfound, resourceCalls_resource, calls, asked, List.map_append]
      rfl
    · refine .finished before [r] asked ?_ (by simp) (hfound ▸ hover) (hfound ▸ hsound)
      rw [hfound, hcalls, calls]

/-- Every stage gives the calls so far, of all requests but perhaps the last. -/
theorem Stage.calls_first {s : Browsing server} (h : Stage s) :
    ∃ before after, s.asked = before ++ after
      ∧ resourceCalls s.link.connection.log = before.map PlainRequest.call ∧ after.length ≤ 1 := by
  cases h with
  | idle calls _ _ _ => exact ⟨s.asked, [], by simp, calls, by simp⟩
  | early before r asked calls _ _ _ _ => exact ⟨before, [r], asked, calls, by simp⟩
  | underway before r log asked calls logged _ _ =>
      exact ⟨before, [r], asked, by rw [logged, calls], by simp⟩
  | finished before after asked calls short _ _ => exact ⟨before, after, asked, calls, short⟩

theorem Stage.sound {s : Browsing server} (h : Stage s) :
    s.link.connection.terminated = false := by
  cases h with
  | idle _ _ _ sound => exact sound
  | early _ _ _ _ _ _ _ sound => exact sound
  | finished _ _ _ _ _ _ sound => exact sound
  | underway before r log _ _ _ reading waits =>
      rcases underway_log reading with hfound | ⟨-, hsound⟩
      · rw [hfound, wait_found] at waits
        cases waits
      · exact hsound

/-- A failure, or the end of the server, ends the connection at any stage. -/
theorem stage_ended {s : Browsing server} (h : Stage s) {c : HttpConnection}
    (hover : Over c) (hcalls : resourceCalls c.log = resourceCalls s.link.connection.log)
    (hsound : c.terminated = s.link.connection.terminated) :
    Stage { s with link := { s.link with connection := c } } := by
  obtain ⟨before, after, hasked, hbefore, hshort⟩ := h.calls_first
  exact .finished before after hasked (hcalls.trans hbefore) hshort hover (hsound.trans h.sound)

/-- With its calls counted, a connection that has answered everything waits for nothing. -/
theorem Stage.not_answered {s : Browsing server} {before : List (PlainRequest server)}
    {r : PlainRequest server} (asked : s.asked = before ++ [r])
    (calls : resourceCalls s.link.connection.log = before.map PlainRequest.call) :
    ¬ s.Answered := by
  unfold Answered
  rw [calls, asked, List.length_map, List.length_append, List.length_singleton]
  omega

/-- A session that begins with a request on its way. -/
theorem stage_begin {s : Browsing server} {before : List (PlainRequest server)}
    {r : PlainRequest server} (asked : s.asked = before ++ [r])
    (calls : resourceCalls s.link.connection.log = before.map PlainRequest.call)
    (text : s.link.received ++ s.outstanding = r.text)
    (session : s.link.connection.session = .header [])
    (sound : s.link.connection.terminated = false) : Stage s := by
  have hconnection : s.link.connection = ⟨.header [], s.link.connection.log, false⟩ := by
    rw [← session, ← sound]
  refine stage_of_underway asked calls ?_
  rw [text, hconnection]
  exact .header r.framing

theorem stage_ask {s : Browsing server} (h : Stage s) (r : PlainRequest server)
    (todo : List (PlainRequest server)) (hanswered : s.Answered) :
    Stage { s with todo := todo, asked := s.asked ++ [r], outstanding := r.text } := by
  -- the browser asks only when it has every answer, so a request under way excludes it
  cases h with
  | idle calls empty session sound =>
      have hreceived : s.link.received = [] := (List.append_eq_nil_iff.mp empty).1
      have htext : s.link.received ++ r.text = r.text := by rw [hreceived, List.nil_append]
      rcases session with hheader | ⟨request, hresponding⟩
      · exact stage_begin rfl calls htext hheader sound
      · exact .early s.asked r rfl calls htext request hresponding sound
  | early before r' asked calls text request session sound =>
      exact absurd hanswered (Stage.not_answered asked calls)
  | underway before r' log asked calls logged reading waits =>
      exact absurd hanswered (Stage.not_answered asked (by rw [logged, calls]))
  | finished before after asked calls short gone sound =>
      have hlength := hanswered
      rw [Answered, calls, asked, List.length_map, List.length_append] at hlength
      obtain rfl : after = [] := List.length_eq_zero_iff.mp (by omega)
      refine .finished before [r] ?_ calls (by simp) gone sound
      rw [asked, List.append_nil]

theorem stage_complete {s : Browsing server} (h : Stage s) {n : Nat} {link : HttpLink}
    (hstep : HttpLink.complete server s.link n = some link) : Stage { s with link := link } := by
  obtain ⟨w, hwait, hn, haccepts, rfl⟩ := HttpLink.complete_eq_some.mp hstep
  -- a read completes only with bytes of a request, so only while one is under way
  cases h with
  | idle calls empty session sound =>
      have hreceived : s.link.received = [] := (List.append_eq_nil_iff.mp empty).1
      rcases session with hheader | ⟨request, hresponding⟩
      · rw [hheader] at hwait
        cases hwait
        have hfound := Wait.found_of_accepts haccepts
        rw [hreceived, List.take_nil] at hfound
        exact absurd hfound (by decide)
      · rw [hresponding] at hwait
        cases hwait
  | early before r asked calls text request session sound =>
      rw [session] at hwait
      cases hwait
  | underway before r log asked calls logged reading waits =>
      refine stage_of_underway asked calls ?_
      refine underway_handle r.sendable ?_ hwait haccepts
      rw [← List.append_assoc, List.take_append_drop]
      exact reading
  | finished before after asked calls short gone sound =>
      rw [wait_over gone] at hwait
      cases hwait

theorem stage_responded {s : Browsing server} (h : Stage s) {request : RequestMessage}
    (hsession : s.link.connection.session = .responding request) :
    Stage { s with link := { s.link with
      connection := s.link.connection.responded server request } } := by
  unfold responded
  split
  · -- the next session begins with what is there of the next request
    cases h with
    | idle calls empty session sound => exact .idle calls empty (.inl rfl) sound
    | early before r asked calls text request' session sound =>
        exact stage_begin asked calls text rfl sound
    | underway before r log asked calls logged reading waits =>
        rw [hsession] at waits
        cases waits
    | finished before after asked calls short gone sound =>
        rcases gone with hended | ⟨request', hupgraded⟩
        · rw [hsession] at hended
          cases hended
        · rw [hsession] at hupgraded
          cases hupgraded
  · exact stage_ended h (.inl rfl) rfl rfl

theorem stage_server {s : Browsing server} (h : Stage s) {a : HttpLink.Action} {link : HttpLink}
    (harrive : ∀ bytes, a ≠ .arrive bytes) (hstep : HttpLink.step server s.link a = some link) :
    Stage { s with link := link } := by
  cases a with
  | arrive bytes => exact absurd rfl (harrive bytes)
  | complete n => exact stage_complete h hstep
  | responded =>
      obtain ⟨request, hsession, rfl⟩ := HttpLink.responded_eq_some hstep
      exact stage_responded h hsession
  | fail ec =>
      obtain ⟨-, ⟨⟩⟩ := Option.ite_none_right_eq_some.mp hstep
      exact stage_ended h (.inl rfl) (resourceCalls_onError _ _) rfl
  | stop =>
      obtain ⟨-, ⟨⟩⟩ := Option.ite_none_right_eq_some.mp hstep
      exact stage_ended h (.inl rfl) rfl rfl

/-- What arrives of a request moves from the network into the socket. -/
theorem stage_deliver {s : Browsing server} (h : Stage s) (n : Nat) :
    Stage { s with
      link := { s.link with received := s.link.received ++ s.outstanding.take n }
      outstanding := s.outstanding.drop n } := by
  have hsame : (s.link.received ++ s.outstanding.take n) ++ s.outstanding.drop n
      = s.link.received ++ s.outstanding := by
    rw [List.append_assoc, List.take_append_drop]
  cases h with
  | idle calls empty session sound => exact .idle calls (hsame.trans empty) session sound
  | early before r asked calls text request session sound =>
      exact .early before r asked calls (hsame.trans text) request session sound
  | underway before r log asked calls logged reading waits =>
      exact .underway before r log asked calls logged (hsame.symm ▸ reading) waits
  | finished before after asked calls short gone sound =>
      exact .finished before after asked calls short gone sound

theorem stage_step {s s' : Browsing server} {a : Action} (h : Stage s)
    (hstep : step s a = some s') : Stage s' := by
  cases a with
  | ask =>
      simp only [step] at hstep
      split at hstep
      · cases hstep
      · rename_i r todo _
        obtain ⟨⟨-, hanswered⟩, ⟨⟩⟩ := Option.ite_none_right_eq_some.mp hstep
        exact stage_ask h r todo hanswered
  | deliver n =>
      obtain ⟨-, ⟨⟩⟩ := Option.ite_none_right_eq_some.mp hstep
      exact stage_deliver h n
  | server b =>
      cases b with
      | arrive bytes => cases hstep
      | _ =>
          obtain ⟨link, hlink, rfl⟩ := Option.map_eq_some_iff.mp hstep
          exact stage_server h (by rintro _ ⟨⟩) hlink

theorem stage_reachable {s : Browsing server} (h : (system server).Reachable s) : Stage s := by
  refine System.Reachable.invariant (P := Stage) ?_ ?_ h
  · rintro s ⟨todo, rfl⟩
    exact .idle rfl rfl (.inl rfl) rfl
  · exact fun s a s' _ hs hstep => stage_step hs hstep

/-- Where everything has arrived and nothing is written or read, all requests are handed over. -/
theorem Stage.calls_of_rest {s : Browsing server} (h : Stage s) (hempty : s.outstanding = [])
    (hquiet : HttpLink.Quiet server s.link)
    (hsession : ∀ request, s.link.connection.session ≠ .responding request)
    (halive : ¬ Over s.link.connection) :
    resourceCalls s.link.connection.log = s.asked.map PlainRequest.call := by
  cases h with
  | idle calls _ _ _ => exact calls
  | early before r asked calls text request session sound => exact absurd session (hsession request)
  | underway before r log asked calls logged reading waits =>
      rw [hempty] at reading
      have hfound := HttpLink.found_of_quiet r.sendable reading hquiet
      rw [hfound.1, wait_found] at waits
      cases waits
  | finished before after asked calls short gone sound => exact absurd gone halive

/--
On a connection that a browser uses for one request after the other, the resource
functions are called for its requests, in their order, each once and with the content
that was sent; at most the last request is not handed over yet. It is handed over when
it has arrived and is read, unless the connection has come to its end.
-/
theorem requests_served {s : Browsing server} (h : (system server).Reachable s) :
    (∃ before after, s.asked = before ++ after ∧ after.length ≤ 1
        ∧ resourceCalls s.link.connection.log = before.map PlainRequest.call)
      ∧ s.link.connection.terminated = false
      ∧ (s.outstanding = [] → HttpLink.Quiet server s.link →
          (∀ request, s.link.connection.session ≠ .responding request) →
          ¬ Over s.link.connection →
          resourceCalls s.link.connection.log = s.asked.map PlainRequest.call) := by
  have hstage := stage_reachable h
  refine ⟨?_, hstage.sound, hstage.calls_of_rest⟩
  obtain ⟨before, after, hasked, hcalls, hshort⟩ := hstage.calls_first
  exact ⟨before, after, hasked, hshort, hcalls⟩

/-! ## Two requests -/

/-- `GET` of a path, without fields. -/
def getRequest (path : Bytes) : RequestMessage := ⟨utf8 "GET", path, [], utf8 "1.1", []⟩

theorem getRequest_sendable {path : Bytes} (hblank : blank ∉ path) (hfeed : lineFeed ∉ path)
    (hmark : questionMark ∉ path) (hshort : path.length < 100) :
    Sendable httpServer (getRequest path) [] := by
  have hget : blank ∉ utf8 "GET" ∧ lineFeed ∉ utf8 "GET" := by decide +kernel
  have hversion : lineFeed ∉ utf8 "1.1" := by decide +kernel
  refine ⟨⟨hget, ⟨hblank, hfeed, hmark⟩, by simp [getRequest], hversion, by simp [getRequest]⟩,
    ?_, by simp [httpServer], by simp⟩
  have hlen : (getRequest path).text.length = path.length + 17 := by
    have hmethod : (utf8 "GET").length = 3 := by decide +kernel
    have hprotocol : (utf8 "HTTP/").length = 5 := by decide +kernel
    have hnumber : (utf8 "1.1").length = 3 := by decide +kernel
    have hend : (utf8 "\r\n").length = 2 := by decide +kernel
    simp only [RequestMessage.text, RequestMessage.target, getRequest, if_true, List.flatMap_nil,
      List.length_nil, List.length_append, List.length_cons, hmethod, hprotocol, hnumber, hend]
    omega
  rw [hlen]
  simp only [httpServer]
  omega

def page : PlainRequest httpServer where
  message := getRequest (utf8 "/")
  content := []
  sendable := getRequest_sendable (by decide +kernel) (by decide +kernel) (by decide +kernel)
    (by decide +kernel)
  framing := .none rfl rfl

def script : PlainRequest httpServer where
  message := getRequest (utf8 "/a.js")
  content := []
  sendable := getRequest_sendable (by decide +kernel) (by decide +kernel) (by decide +kernel)
    (by decide +kernel)
  framing := .none rfl rfl

/-- The second request begins to arrive while the first response is still being written. -/
def twoRequests : List Action :=
  [.ask, .deliver 18, .server (.complete 18), .ask, .deliver 3, .server .responded, .deliver 19,
    .server (.complete 22), .server .responded]

theorem requests_served_two :
    ∃ s : Browsing httpServer,
      (system httpServer).run { todo := [page, script] } twoRequests = some s
      ∧ s.asked.length = 2
      ∧ resourceCalls s.link.connection.log = s.asked.map PlainRequest.call := by
  have hend : ((system httpServer).run { todo := [page, script] } twoRequests).map
      (fun s => (s.link, s.outstanding, s.asked.length))
        = some (⟨⟨.header [], [page.call, script.call], false⟩, []⟩, [], 2) := by
    decide +kernel
  obtain ⟨s, hrun, hs⟩ := Option.map_eq_some_iff.mp hend
  obtain ⟨hlink, hrest⟩ := Prod.mk.inj hs
  obtain ⟨houtstanding, hasked⟩ := Prod.mk.inj hrest
  have hstart : (system httpServer).init { todo := [page, script] } := ⟨_, rfl⟩
  have hreach := System.Reachable.run (.init hstart) hrun
  refine ⟨s, hrun, hasked, (requests_served hreach).2.2 houtstanding ?_ ?_ ?_⟩
  · intro n
    rw [hlink]
    simp only [HttpLink.complete, wait, List.take_nil]
    exact if_neg (fun h => absurd h.2 (by decide))
  · intro request
    rw [hlink]
    nofun
  · rw [hlink]
    rintro (h | ⟨request, h⟩)
    · cases h
    · cases h

end Browsing

end MobaDisplay
