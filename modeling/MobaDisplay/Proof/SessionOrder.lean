import MobaDisplay.Proof.Session

/-!
# What any bytes can do to a connection

Here nothing is known of what arrives. Whatever it is, a completed read waits for more,
ends the session with an error or finds a request (`goes_handle`). Resource functions are
called one after the other, for methods that have one and only for requests that ask for
no upgrade, and the first upgrade or error is the last thing that happens.
-/

namespace MobaDisplay

open Cxx Streambuf Transition HttpConnection

namespace HttpConnection

variable {server : HttpServer}

/-- What a handler can make of a session. -/
inductive Goes (server : HttpServer) (c : HttpConnection) : HttpConnection → Prop where
  | waits {session : Session} (h : (wait server session).isSome = true) :
      Goes server c { c with session := session }
  | fails (ec : ErrorCode) : Goes server c (c.error ec)
  | finds (m : RequestMessage) (content : Bytes) : Goes server c (findResource server c m content)

theorem goes_readContent (c : HttpConnection) (m : RequestMessage) (streambuf : Bytes) (n : Nat) :
    Goes server c (readContent server c m streambuf n) := by
  unfold readContent
  split
  · split
    · exact .fails .protocolError
    · split
      · exact .fails .messageSize
      · split
        · exact .waits rfl
        · exact .finds m streambuf
  · split
    · exact .waits rfl
    · exact .finds m streambuf

theorem goes_handleHeader (c : HttpConnection) {streambuf : Bytes}
    (hfound : (indexOf (crlf ++ crlf) streambuf).isSome = true) :
    Goes server c (handleHeader server c streambuf) := by
  obtain ⟨i, hi⟩ := Option.isSome_iff_exists.mp hfound
  unfold handleHeader
  rw [hi]
  dsimp only
  -- the parser refuses the text or takes it; it never throws
  rcases RequestMessage.parse_cases streambuf with ⟨rest, hnone⟩ | ⟨m, rest, haccepted⟩
  · rw [hnone]
    exact .fails .protocolError
  · rw [haccepted.parse]
    exact goes_readContent c m rest _

theorem goes_handleChunkSize (c : HttpConnection) (m : RequestMessage)
    {streambuf buffer : Bytes} {maxSize : Nat} (hfound : (indexOf crlf buffer).isSome = true) :
    Goes server c (handleChunkSize server c m streambuf buffer maxSize) := by
  obtain ⟨i, hi⟩ := Option.isSome_iff_exists.mp hfound
  have hne : buffer ≠ [] := by
    rintro rfl
    cases hi
  have hline : getline buffer = some (_, _) := if_neg hne
  unfold handleChunkSize
  rw [hi, hline]
  dsimp only
  split
  · exact .fails .protocolError
  · split
    · exact .finds m streambuf
    · split
      · exact .fails .messageSize
      · split
        · exact .waits rfl
        · split
          · exact .waits rfl
          · exact .waits rfl

theorem goes_handle {c : HttpConnection} {w : Wait} {bytes : Bytes}
    (hwait : wait server c.session = some w) (haccepts : w.accepts bytes = true) :
    Goes server c (handle server c bytes) := by
  unfold handle
  cases hsession : c.session with
  | header streambuf =>
      rw [hsession] at hwait
      cases hwait
      exact goes_handleHeader c (Wait.found_of_accepts haccepts)
  | content m streambuf missing => exact .finds m (streambuf ++ bytes)
  | chunkSize m streambuf buffer maxSize =>
      rw [hsession] at hwait
      cases hwait
      exact goes_handleChunkSize c m (Wait.found_of_accepts haccepts)
  | chunk m streambuf buffer maxSize missing => exact .waits rfl
  | chunkEnd m streambuf buffer maxSize missing => exact .waits rfl
  | responding m =>
      rw [hsession] at hwait
      cases hwait
  | upgraded m =>
      rw [hsession] at hwait
      cases hwait
  | ended =>
      rw [hsession] at hwait
      cases hwait

/-- Whether a request asks for another protocol. -/
def AsksUpgrade (server : HttpServer) (m : RequestMessage) : Prop :=
  server.onUpgrade = true ∧ (server.multimap.find m.header (utf8 "Upgrade")).isSome = true

/-- The calls of a resource function that are in order. -/
def Called (server : HttpServer) (e : HttpEffect) : Prop :=
  ∃ m content, e = .resource m content ∧ m.method ∈ server.defaultResource
    ∧ ¬ AsksUpgrade server m

/-- What has happened last, and what it means for the session. -/
inductive Last (server : HttpServer) : List HttpEffect → Session → Prop where
  | nothing (session : Session) (h : ∀ m, session ≠ .upgraded m) : Last server [] session
  | failed (ec : ErrorCode) : Last server [.onError ec] .ended
  | upgraded (m : RequestMessage) (h : AsksUpgrade server m) :
      Last server [.upgrade m] (.upgraded m)

/-- Resource functions were called, and then, perhaps, something else happened. -/
structure CallsThenLast (server : HttpServer) (c : HttpConnection) : Prop where
  log : ∃ calls last, c.log = calls ++ last ∧ (∀ e ∈ calls, Called server e)
    ∧ Last server last c.session
  sound : c.terminated = false

/-- While anything can still happen, nothing but calls has. -/
theorem CallsThenLast.calls {c : HttpConnection} (h : CallsThenLast server c)
    (halive : c.session ≠ .ended ∧ ∀ m, c.session ≠ .upgraded m) :
    ∀ e ∈ c.log, Called server e := by
  obtain ⟨calls, last, hlog, hcalls, hlast⟩ := h.log
  rw [hlog]
  cases hsession : c.session with
  | ended => exact absurd hsession halive.1
  | upgraded m => exact absurd hsession (halive.2 m)
  | _ =>
      rw [hsession] at hlast
      cases hlast
      simpa using hcalls

theorem orderly_same {c : HttpConnection} {session : Session}
    (hcalls : ∀ e ∈ c.log, Called server e) (hsound : c.terminated = false)
    (h : ∀ m, session ≠ .upgraded m) : CallsThenLast server { c with session := session } :=
  ⟨⟨c.log, [], by simp, hcalls, .nothing session h⟩, hsound⟩

theorem orderly_error {c : HttpConnection} (hcalls : ∀ e ∈ c.log, Called server e)
    (hsound : c.terminated = false) (ec : ErrorCode) : CallsThenLast server (c.error ec) :=
  ⟨⟨c.log, [.onError ec], rfl, hcalls, .failed ec⟩, hsound⟩

theorem orderly_goes {c c' : HttpConnection} (hcalls : ∀ e ∈ c.log, Called server e)
    (hsound : c.terminated = false) (hgoes : Goes server c c') : CallsThenLast server c' := by
  -- the log holds nothing but calls so far, so anything may come last
  cases hgoes with
  | @waits session hwait =>
      refine orderly_same hcalls hsound ?_
      rintro m rfl
      cases hwait
  | fails ec => exact orderly_error hcalls hsound ec
  | finds m content =>
      unfold findResource
      split
      · rename_i hupgrade
        have hasks : AsksUpgrade server m := by simpa [AsksUpgrade] using hupgrade
        exact ⟨⟨c.log, [.upgrade m], rfl, hcalls, .upgraded m hasks⟩, hsound⟩
      · rename_i hplain
        split
        · rename_i hmethod
          have hnot : ¬ AsksUpgrade server m := by simpa [AsksUpgrade] using hplain
          refine ⟨⟨c.log ++ [.resource m content], [], by simp [logged], ?_, .nothing _ nofun⟩,
            hsound⟩
          intro e he
          rcases List.mem_append.mp he with he | he
          · exact hcalls e he
          · exact ⟨m, content, List.mem_singleton.mp he, hmethod, hnot⟩
        · exact orderly_same hcalls hsound nofun

end HttpConnection

namespace HttpLink

variable {server : HttpServer}

/-- A session whose handler is pending has neither ended nor been handed over. -/
theorem alive_of_pending {x : HttpLink} (h : x.pending server = true) :
    x.connection.session ≠ .ended ∧ ∀ m, x.connection.session ≠ .upgraded m := by
  unfold pending at h
  refine ⟨?_, ?_⟩
  · intro hended
    rw [hended] at h
    cases h
  · intro m hupgraded
    rw [hupgraded] at h
    cases h

theorem orderly_step {x y : HttpLink} {a : Action} (h : CallsThenLast server x.connection)
    (hstep : step server x a = some y) : CallsThenLast server y.connection := by
  cases a with
  | arrive bytes =>
      cases hstep
      exact h
  | complete n =>
      obtain ⟨w, hwait, -, haccepts, rfl⟩ := complete_eq_some.mp hstep
      have halive : x.connection.session ≠ .ended ∧ ∀ m, x.connection.session ≠ .upgraded m := by
        refine ⟨?_, ?_⟩
        · intro hended
          rw [hended] at hwait
          cases hwait
        · intro m hupgraded
          rw [hupgraded] at hwait
          cases hwait
      exact orderly_goes (h.calls halive) h.sound (goes_handle hwait haccepts)
  | responded =>
      obtain ⟨m, hsession, rfl⟩ := responded_eq_some hstep
      have hcalls := h.calls (by rw [hsession]; exact ⟨nofun, nofun⟩)
      unfold responded
      split
      · exact orderly_same hcalls h.sound nofun
      · exact orderly_same hcalls h.sound nofun
  | fail ec =>
      obtain ⟨hpending, ⟨⟩⟩ := Option.ite_none_right_eq_some.mp hstep
      exact orderly_error (h.calls (alive_of_pending hpending)) h.sound ec
  | stop =>
      obtain ⟨hpending, ⟨⟩⟩ := Option.ite_none_right_eq_some.mp hstep
      exact orderly_same (h.calls (alive_of_pending hpending)) h.sound nofun

/--
Whatever arrives, whenever it is read and whatever fails, nothing is thrown out of the
parser. Resource functions are called for their methods and for requests that ask for no
upgrade; a connection is handed over only for one that does. An error and an upgrade are
the last thing that happens.
-/
theorem sessions_orderly {x : HttpLink} (h : (system server).Reachable x) :
    x.connection.terminated = false
      ∧ ∃ calls last, x.connection.log = calls ++ last ∧ (∀ e ∈ calls, Called server e)
        ∧ Last server last x.connection.session := by
  have horderly : CallsThenLast server x.connection := by
    refine System.Reachable.invariant (P := fun x => CallsThenLast server x.connection) ?_ ?_ h
    · rintro x rfl
      exact ⟨⟨[], [], rfl, nofun, .nothing _ nofun⟩, rfl⟩
    · exact fun x a y _ hx hstep => orderly_step hx hstep
  exact ⟨horderly.sound, horderly.log⟩

/-- What is no request, with more behind it. -/
def nonsense : List Action := [.arrive (crlf ++ crlf ++ [71, 69, 84]), .complete 7]

theorem sessions_orderly_nonsense :
    ∃ x : HttpLink, (system httpServer).run {} nonsense = some x
      ∧ x.connection.log = [.onError .protocolError] ∧ x.connection.terminated = false := by
  have hend : ((system httpServer).run {} nonsense).map (fun x => x.connection.log)
      = some [.onError .protocolError] := by
    decide +kernel
  obtain ⟨x, hrun, hx⟩ := Option.map_eq_some_iff.mp hend
  exact ⟨x, hrun, hx, (sessions_orderly (System.Reachable.run (.init rfl) hrun)).1⟩

end HttpLink

end MobaDisplay
