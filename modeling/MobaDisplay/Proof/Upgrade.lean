import MobaDisplay.Proof.Conversation
import MobaDisplay.Proof.SessionOrder
import MobaDisplay.Web.Upgrade

/-!
# Who gets a websocket connection

Whatever arrives and whatever fails, a connection reads messages only after a request for
an upgrade that had the path of the endpoint and a key, and that was answered with the
hash of this key. Everything else is answered with a status or not at all, and from then
on nobody reads the socket.
-/

namespace MobaDisplay

open Cxx Transition AsyncRead HttpConnection

/-! ## The path and the key -/

theorem literal_rmatch (text path : Bytes) : (literal text).rmatch path = true ↔ path = text := by
  induction text generalizing path with
  | nil => exact RegularExpression.one_rmatch_iff path
  | cons b text ih =>
      rw [literal, List.foldr_cons, ← literal, RegularExpression.mul_rmatch_iff]
      refine ⟨?_, ?_⟩
      · rintro ⟨first, rest, rfl, hfirst, hrest⟩
        rw [(RegularExpression.char_rmatch_iff b first).mp hfirst, (ih rest).mp hrest]
        rfl
      · rintro rfl
        exact ⟨[b], text, rfl, (RegularExpression.char_rmatch_iff b [b]).mpr rfl, (ih text).mpr rfl⟩

theorem displayRegex_rmatch (path : Bytes) : displayRegex.rmatch path = true
    ↔ path = utf8 "/display" ∨ path = utf8 "/display/" := by
  have hslash : utf8 "/display/" = utf8 "/display" ++ [slash] := by decide +kernel
  rw [displayRegex, RegularExpression.mul_rmatch_iff, hslash]
  simp only [literal_rmatch, RegularExpression.add_rmatch_iff, RegularExpression.char_rmatch_iff,
    RegularExpression.one_rmatch_iff]
  refine ⟨?_, ?_⟩
  · rintro ⟨_, _, rfl, rfl, rfl | rfl⟩
    · exact .inr rfl
    · exact .inl (List.append_nil _)
  · rintro (rfl | rfl)
    · exact ⟨_, [], (List.append_nil _).symm, rfl, .inr rfl⟩
    · exact ⟨_, _, rfl, rfl, .inl rfl⟩

theorem writeHandshake_accepted {ws : WsServer} {m : RequestMessage} {key : Bytes} :
    writeHandshake ws m = .accepted key
      ↔ (∃ regex ∈ ws.endpoint, regex.rmatch m.path = true)
        ∧ ws.multimap.find m.header (utf8 "Sec-WebSocket-Key") = some key := by
  unfold writeHandshake
  split
  · rename_i hpath
    have hsome := List.any_eq_true.mp hpath
    split
    · rename_i hkey
      refine ⟨nofun, ?_⟩
      rintro ⟨-, hfind⟩
      rw [hkey] at hfind
      cases hfind
    · rename_i found hkey
      rw [hkey]
      refine ⟨?_, ?_⟩
      · rintro ⟨⟩
        exact ⟨hsome, rfl⟩
      · rintro ⟨-, ⟨⟩⟩
        rfl
  · rename_i hpath
    refine ⟨nofun, ?_⟩
    rintro ⟨hsome, -⟩
    exact absurd (List.any_eq_true.mpr hsome) hpath

/-- The value that is found is one of those the key has. -/
theorem Multimap.find_mem (mm : Multimap) {header : Header} {name value : Bytes}
    (h : mm.find header name = some value) : value ∈ fieldValues header name :=
  (mm.perm header name).mem_iff.mp (List.mem_of_mem_head? h)

namespace Socket

variable {server : HttpServer} {ws : WsServer}

/-! ## What has become of the request -/

/-- The http server has handed the connection over, and is done with it. -/
structure HandedOver (server : HttpServer) (ws : WsServer) (s : Socket) (m : RequestMessage) :
    Prop where
  session : s.http.session = .upgraded m
  asked : AsksUpgrade server m
  log : ∃ calls, s.http.log = calls ++ [.upgrade m] ∧ ∀ e ∈ calls, Called server e
  answer : s.answer = (writeHandshake ws m).text ws

/-- Who has the socket, and why. -/
inductive Course (server : HttpServer) (ws : WsServer) (s : Socket) : Prop where
  | http (holder : s.holder = .http) (orderly : HttpConnection.CallsThenLast server s.http)
      (session : ∀ m, s.http.session ≠ .upgraded m) (answer : s.answer = [])
  | handshake (m : RequestMessage) (handed : HandedOver server ws s m)
      (holder : s.holder = .handshake (writeHandshake ws m))
  | websocket (m : RequestMessage) (key : Bytes) (connection : Connection)
      (handed : HandedOver server ws s m) (accepted : writeHandshake ws m = .accepted key)
      (holder : s.holder = .websocket connection) (orderly : Orderly connection)
  | nobody (m : RequestMessage) (handed : HandedOver server ws s m) (holder : s.holder = .nobody)

/-- The http server goes on with a request, or hands the connection over. -/
theorem course_upgrade {s : Socket} (holder : s.holder = .http)
    (orderly : HttpConnection.CallsThenLast server s.http) (answer : s.answer = []) :
    Course server ws (upgrade ws s) := by
  obtain ⟨calls, last, hlog, hcalls, hlast⟩ := orderly.log
  unfold upgrade
  cases hsession : s.http.session with
  | upgraded m =>
      rw [hsession] at hlast
      cases hlast with
      | nothing _ hnot => exact absurd rfl (hnot m)
      | upgraded _ hasked =>
          dsimp only
          -- an unmatched path gets no answer at all: the connection is dropped
          cases hshake : writeHandshake ws m with
          | unmatched =>
              refine .nobody m ⟨hsession, hasked, ⟨calls, hlog, hcalls⟩, ?_⟩ rfl
              rw [hshake]
              exact answer
          | refused =>
              refine .handshake m ⟨hsession, hasked, ⟨calls, hlog, hcalls⟩, ?_⟩ ?_
              · rw [hshake]
              · rw [hshake]
          | accepted key =>
              refine .handshake m ⟨hsession, hasked, ⟨calls, hlog, hcalls⟩, ?_⟩ ?_
              · rw [hshake]
              · rw [hshake]
  | _ =>
      refine .http holder orderly ?_ answer
      rw [hsession]
      exact nofun

/-- What `on_open` and `read_message` begin with. -/
theorem orderly_opened : Orderly Connection.opened :=
  ⟨[], [], rfl, by simp, Ending.silent, fun _ => ⟨rfl, rfl⟩⟩

/-- A connection whose handshake could not be written. -/
theorem orderly_unwritten (ec : ErrorCode) :
    Orderly (({} : Connection).connectionError ec) :=
  ⟨[], _, rfl, by simp, Ending.error ec, fun h => absurd rfl h⟩

theorem HandedOver.with_holder {s : Socket} {m : RequestMessage} (h : HandedOver server ws s m)
    (holder : Holder) : HandedOver server ws { s with holder := holder } m :=
  ⟨h.session, h.asked, h.log, h.answer⟩

/-! What the holder of the socket says about its course. -/

theorem Course.of_http {s : Socket} (h : Course server ws s) (holder : s.holder = .http) :
    HttpConnection.CallsThenLast server s.http ∧ s.answer = []
      ∧ ∀ m, s.http.session ≠ .upgraded m := by
  cases h with
  | http _ orderly session answer => exact ⟨orderly, answer, session⟩
  | handshake _ _ held => exact absurd (holder.symm.trans held) nofun
  | websocket _ _ _ _ _ held _ => exact absurd (holder.symm.trans held) nofun
  | nobody _ _ held => exact absurd (holder.symm.trans held) nofun

theorem Course.of_handshake {s : Socket} {shake : Handshake} (h : Course server ws s)
    (holder : s.holder = .handshake shake) :
    ∃ m, HandedOver server ws s m ∧ writeHandshake ws m = shake := by
  cases h with
  | http held _ _ _ => exact absurd (holder.symm.trans held) nofun
  | handshake m handed held =>
      rw [holder] at held
      cases held
      exact ⟨m, handed, rfl⟩
  | websocket _ _ _ _ _ held _ => exact absurd (holder.symm.trans held) nofun
  | nobody _ _ held => exact absurd (holder.symm.trans held) nofun

theorem Course.of_websocket {s : Socket} {connection : Connection} (h : Course server ws s)
    (holder : s.holder = .websocket connection) :
    ∃ m key, HandedOver server ws s m ∧ writeHandshake ws m = .accepted key
      ∧ Orderly connection := by
  cases h with
  | http held _ _ _ => exact absurd (holder.symm.trans held) nofun
  | handshake _ _ held => exact absurd (holder.symm.trans held) nofun
  | websocket m key _ handed accepted held orderly =>
      rw [holder] at held
      cases held
      exact ⟨m, key, handed, accepted, orderly⟩
  | nobody _ _ held => exact absurd (holder.symm.trans held) nofun

theorem Course.handedOver {s : Socket} (h : Course server ws s) (holder : s.holder ≠ .http) :
    ∃ m, HandedOver server ws s m := by
  cases h with
  | http held _ _ _ => exact absurd held holder
  | handshake m handed _ => exact ⟨m, handed⟩
  | websocket m _ _ handed _ _ _ => exact ⟨m, handed⟩
  | nobody m handed _ => exact ⟨m, handed⟩

theorem course_httpStep {s s' : Socket} {a : HttpLink.Action} (h : Course server ws s)
    (holder : s.holder = .http) (hstep : httpStep server ws s a = some s') :
    Course server ws s' := by
  obtain ⟨link, hlink, rfl⟩ := Option.map_eq_some_iff.mp hstep
  obtain ⟨orderly, answer, -⟩ := h.of_http holder
  have hnext : HttpConnection.CallsThenLast server link.connection :=
    HttpLink.orderly_step (x := ⟨s.http, s.received⟩) orderly hlink
  exact course_upgrade holder hnext answer

theorem course_websocketStep {s s' : Socket} {connection : Connection}
    {e : Event Connection.Failure} (h : Course server ws s)
    (holder : s.holder = .websocket connection)
    (hstep : websocketStep ws s connection e = some s') : Course server ws s' := by
  obtain ⟨link, hlink, rfl⟩ := Option.map_eq_some_iff.mp hstep
  obtain ⟨m, key, handed, accepted, orderly⟩ := h.of_websocket holder
  have hnext : Orderly link.state :=
    orderly_step (x := ⟨connection, s.received⟩) orderly hlink
  exact .websocket m key link.state ⟨handed.session, handed.asked, handed.log, handed.answer⟩
    accepted rfl hnext

theorem course_step {s s' : Socket} {a : Action} (h : Course server ws s)
    (hstep : step server ws s a = some s') : Course server ws s' := by
  cases a with
  | arrive bytes =>
      cases hstep
      cases h with
      | http holder orderly session answer => exact .http holder orderly session answer
      | handshake m handed holder =>
          exact .handshake m ⟨handed.session, handed.asked, handed.log, handed.answer⟩ holder
      | websocket m key connection handed accepted holder orderly =>
          exact .websocket m key connection
            ⟨handed.session, handed.asked, handed.log, handed.answer⟩ accepted holder orderly
      | nobody m handed holder =>
          exact .nobody m ⟨handed.session, handed.asked, handed.log, handed.answer⟩ holder
  | http a =>
      simp only [step] at hstep
      split at hstep
      · cases hstep
      · rename_i holder _
        exact course_httpStep h holder hstep
      · cases hstep
  | written =>
      simp only [step] at hstep
      split at hstep
      · rename_i key holder
        obtain ⟨m, handed, hshake⟩ := h.of_handshake holder
        cases hstep
        exact .websocket m key _ (handed.with_holder _) hshake rfl orderly_opened
      · rename_i shake _ holder
        obtain ⟨m, handed, -⟩ := h.of_handshake holder
        cases hstep
        exact .nobody m (handed.with_holder _) rfl
      · cases hstep
  | writeFailed ec =>
      simp only [step] at hstep
      split at hstep
      · rename_i key holder
        obtain ⟨m, handed, hshake⟩ := h.of_handshake holder
        cases hstep
        exact .websocket m key _ (handed.with_holder _) hshake rfl (orderly_unwritten ec)
      · rename_i shake _ holder
        obtain ⟨m, handed, -⟩ := h.of_handshake holder
        cases hstep
        exact .nobody m (handed.with_holder _) rfl
      · cases hstep
  | writeStopped =>
      simp only [step] at hstep
      split at hstep
      · rename_i shake holder
        obtain ⟨m, handed, -⟩ := h.of_handshake holder
        cases hstep
        exact .nobody m (handed.with_holder _) rfl
      · cases hstep
  | websocket e =>
      simp only [step] at hstep
      split at hstep
      · cases hstep
      · rename_i connection holder _
        exact course_websocketStep h holder hstep
      · cases hstep

theorem course_reachable {s : Socket} (h : (system server ws).Reachable s) :
    Course server ws s := by
  refine System.Reachable.invariant (P := Course server ws) ?_ ?_ h
  · rintro s rfl
    exact .http rfl ⟨⟨[], [], rfl, nofun, .nothing _ nofun⟩, rfl⟩ nofun rfl
  · exact fun s a s' _ hs hstep => course_step hs hstep

/--
A connection reads messages only where the last thing the http server did was to hand
over a request for an upgrade, with the path of the display and a key, and where the
answer was the hash of this key; resource functions were called before and for other
requests. On other paths nothing is answered, without a key a status, and then nobody
reads.
-/
theorem opened_by_handshake (hendpoint : ws.endpoint = [displayRegex]) {s : Socket}
    (h : (system server ws).Reachable s) :
    (s.holder = .http ∧ s.answer = [] ∧ ∀ m, s.http.session ≠ .upgraded m)
      ∨ ∃ m, HandedOver server ws s m
        ∧ ∀ connection, s.holder = .websocket connection →
          (m.path = utf8 "/display" ∨ m.path = utf8 "/display/")
            ∧ (∃ key ∈ fieldValues m.header (utf8 "Sec-WebSocket-Key"),
                s.answer = (Handshake.accepted key).text ws)
            ∧ Orderly connection := by
  have hcourse := course_reachable h
  by_cases holder : s.holder = .http
  · obtain ⟨-, answer, session⟩ := hcourse.of_http holder
    exact .inl ⟨holder, answer, session⟩
  · obtain ⟨m, handed⟩ := hcourse.handedOver holder
    refine .inr ⟨m, handed, ?_⟩
    intro connection held
    obtain ⟨m', key, handed', accepted, orderly⟩ := hcourse.of_websocket held
    -- only one request can have been handed over
    obtain rfl : m' = m := Session.upgraded.inj (handed'.session.symm.trans handed.session)
    obtain ⟨⟨regex, hregex, hpath⟩, hkey⟩ := writeHandshake_accepted.mp accepted
    rw [hendpoint, List.mem_singleton] at hregex
    subst hregex
    refine ⟨(displayRegex_rmatch _).mp hpath, ⟨key, ws.multimap.find_mem hkey, ?_⟩, orderly⟩
    rw [handed.answer, accepted]

/-- What a browser sends for the display. -/
def displayRequest : RequestMessage :=
  ⟨utf8 "GET", utf8 "/display", [], utf8 "1.1",
    [(utf8 "Upgrade", utf8 "websocket"), (utf8 "Connection", utf8 "Upgrade"),
      (utf8 "Sec-WebSocket-Key", utf8 "dGhlIHNhbXBsZSBub25jZQ==")]⟩

/-- The digest of this key, and its encoding. -/
def sampleCrypto : Crypto where
  sha1 := fun _ => [0xb3, 0x7a, 0x4f, 0x2c, 0xc0, 0x62, 0x4f, 0x16, 0x90, 0xf6, 0x46, 0x06, 0xcf,
    0x38, 0x59, 0x45, 0xb2, 0xbe, 0xc4, 0xea]
  base64 := fun _ => utf8 "s3pPLMBiTxaQ9kYGzzhZRbK+xOo="

def sampleServer : WsServer where
  crypto := sampleCrypto
  multimap := .inOrder
  walk := id
  walk_perm := List.Perm.refl

/-- The first frame comes in before the server knows that its answer has been written. -/
def displayOpens : List Action :=
  [.arrive (displayRequest.text.take 30), .arrive (displayRequest.text.drop 30),
    .http (.complete displayRequest.text.length), .arrive [0x81, 0x80], .written,
    .websocket .complete]

theorem opened_by_handshake_display :
    ∃ s connection, (system httpServer sampleServer).run {} displayOpens = some s
      ∧ s.holder = .websocket connection
      ∧ (displayRequest.path = utf8 "/display" ∨ displayRequest.path = utf8 "/display/") := by
  have hend : ((system httpServer sampleServer).run {} displayOpens).map
      (fun s => (s.holder, s.http.session))
        = some (.websocket { reading := .content 0 0x81 }, .upgraded displayRequest) := by
    decide +kernel
  obtain ⟨s, hrun, hs⟩ := Option.map_eq_some_iff.mp hend
  obtain ⟨holder, session⟩ := Prod.mk.inj hs
  refine ⟨s, _, hrun, holder, ?_⟩
  rcases opened_by_handshake rfl (System.Reachable.run (.init rfl) hrun) with
    ⟨held, -, -⟩ | ⟨m, handed, hopened⟩
  · exact absurd (holder.symm.trans held) nofun
  · obtain rfl : displayRequest = m := Session.upgraded.inj (session.symm.trans handed.session)
    exact (hopened _ holder).1

end Socket

end MobaDisplay
