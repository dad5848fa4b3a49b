import MobaDisplay.Proof.Session

/-!
# The line end behind the last chunk

A content in chunks ends with a chunk of size zero and a line end. The server goes on as
soon as it has read the size: the line end is in its buffer for chunk sizes by then, and
goes with it, or it is not, and stands in front of the next request on the connection.
-/

namespace MobaDisplay

open Cxx Streambuf Transition HttpConnection

namespace HttpLink

variable {server : HttpServer} {m : RequestMessage} {content trailer : Bytes}
  {log : List HttpEffect}

/-- A line end that the last request has left. -/
inductive LineEnd : Bytes → Prop where
  | whole : LineEnd crlf
  | lineFeed : LineEnd [lineFeed]

theorem lineEnd_of_suffix {e : Bytes} (h : e <:+ crlf) (hne : e ≠ []) : LineEnd e := by
  rcases List.suffix_cons_iff.mp h with rfl | h
  · exact .whole
  · rcases List.suffix_cons_iff.mp h with rfl | h
    · exact .lineFeed
    · exact absurd (List.suffix_nil.mp h) hne

/-- A request that seems to begin with a line end is none. -/
theorem parse_lineEnd {e : Bytes} (h : LineEnd e) (rest : Bytes) :
    ∃ rest', RequestMessage.parse (e ++ rest) = .ok (none, rest') := by
  have hblank : ∀ line : Bytes, blank ∉ line → ∀ m t w, blank ∉ m → blank ∉ t →
      line ≠ RequestMessage.lineUpTo m t w := by
    rintro line hline m t w - - rfl
    exact hline (by simp [RequestMessage.lineUpTo])
  cases h with
  | whole =>
      have hline : lineFeed ∉ ([carriageReturn] : Bytes) := by decide
      exact ⟨_, RequestMessage.parse_short (getline_line hline rest) (hblank _ (by decide))⟩
  | lineFeed =>
      have hline : lineFeed ∉ ([] : Bytes) := by decide
      exact ⟨_, RequestMessage.parse_short (getline_line hline rest) (hblank _ (by decide))⟩

/-- The session that gave up. -/
def refused (log : List HttpEffect) : HttpConnection :=
  ⟨.ended, log ++ [.onError .protocolError], false⟩

/-- A session with a line end in front of the next request, or after it gave up. -/
def Behind (log : List HttpEffect) (text : Bytes) (x : HttpLink) (later : Bytes) : Prop :=
  x.connection = refused log
    ∨ (x.connection = ⟨.header [], log, false⟩ ∧ x.received ++ later = text)

theorem behind_step {e text : Bytes} {x y : HttpLink} {a : Action} {later : Bytes}
    (he : LineEnd e) (hx : Behind log (e ++ text) x (a.bytes ++ later)) (hcalm : a.Calm)
    (hstep : step server x a = some y) : Behind log (e ++ text) y later := by
  cases a with
  | arrive bytes =>
      cases hstep
      -- arrived bytes change nothing for a session that gave up
      rcases hx with hx | ⟨hx, hsplit⟩
      · exact .inl hx
      · exact .inr ⟨hx, by simpa [Action.bytes] using hsplit⟩
  | complete n =>
      obtain ⟨w, hwait, hn, haccepts, rfl⟩ := complete_eq_some.mp hstep
      rcases hx with hx | ⟨hx, hsplit⟩
      · rw [hx] at hwait
        cases hwait
      · rw [hx] at hwait
        cases hwait
        have hfound := Wait.found_of_accepts haccepts
        rw [List.nil_append] at hfound
        obtain ⟨i, hi⟩ := Option.isSome_iff_exists.mp hfound
        -- what was read begins with the line end
        have hbegin : e <+: x.received.take n := by
          obtain ⟨a, b, hp, -⟩ := indexOf_split hi
          refine List.prefix_of_prefix_length_le (List.prefix_append e text) ?_ ?_
          · exact ⟨x.received.drop n ++ later, by
              rw [← List.append_assoc, List.take_append_drop]
              exact hsplit⟩
          · rw [hp]
            cases he with
            | whole => simp only [crlf, List.length_append, List.length_cons]; omega
            | lineFeed => simp only [crlf, List.length_append, List.length_cons]; omega
        obtain ⟨p, hp⟩ := hbegin
        obtain ⟨rest', hparse⟩ := parse_lineEnd he p
        refine .inl ?_
        rw [hx]
        simp only [handle, handleHeader, List.nil_append, hi]
        rw [← hp, hparse]
        rfl
  | responded => exact hcalm.elim
  | fail ec => exact hcalm.elim
  | stop => exact hcalm.elim

/-- A line end in front of a request that has arrived ends the session. -/
theorem refused_of_quiet {e body : Bytes} {x : HttpLink} (he : LineEnd e)
    (h : Sendable server m content)
    (hroom : m.text.length + 2 ≤ server.maxRequestStreambufSize)
    (hx : Behind log (e ++ (m.text ++ body)) x []) (hquiet : Quiet server x) :
    x.connection = refused log := by
  rcases hx with hx | ⟨hx, hsplit⟩
  · exact hx
  · obtain ⟨a, b, htext, ha⟩ := indexOf_split (m.indexOf_text h.writable body)
    have hfour := m.text_length
    have htwo : e.length ≤ 2 := by
      cases he with
      | whole => exact Nat.le_refl 2
      | lineFeed => exact Nat.le_succ 1
    -- a blank line is found, in the request or in front of it, so the read completes
    obtain ⟨i, hi, hindex⟩ := indexOf_le (e ++ a) (crlf ++ crlf) b
    rw [List.append_assoc, ← htext] at hindex
    rw [List.append_nil] at hsplit
    have hlen : i + (crlf ++ crlf).length ≤ server.maxRequestStreambufSize := by
      simp only [List.length_append, crlf, List.length_cons, List.length_nil] at hi ⊢
      omega
    obtain ⟨n, hn, haccepts⟩ := Wait.accepts_of_found
      ((List.nil_append x.received).trans hsplit) hindex hlen
    have hwait : wait server x.connection.session
        = some (.readUntil [] (crlf ++ crlf) server.maxRequestStreambufSize) := by
      rw [hx]
      rfl
    have hsome := complete_eq_some.mpr ⟨_, hwait, hn, haccepts, rfl⟩
    rw [hquiet n] at hsome
    cases hsome

/--
Behind a request in chunks the next one on the connection is served exactly if the line
end of the last chunk was read with it. The server does not wait for it; what is left of
it is taken for a request line.
-/
theorem chunked_next {m₁ m₂ : RequestMessage} {content₁ content₂ body₁ body₂ trailer₂ : Bytes}
    {as bs : List Action} {x y : HttpLink}
    (h₁ : Sendable server m₁ content₁) (framing₁ : Framing m₁.header content₁ body₁ crlf)
    (h₂ : Sendable server m₂ content₂) (framing₂ : Framing m₂.header content₂ body₂ trailer₂)
    (hroom : m₂.text.length + 2 ≤ server.maxRequestStreambufSize)
    (hrun₁ : (system server).run {} as = some x) (hcalm₁ : ∀ a ∈ as, a.Calm)
    (harrived₁ : as.flatMap Action.bytes = m₁.text ++ body₁) (hquiet₁ : Quiet server x)
    (hresponding : x.connection.session = .responding m₁)
    (hkeep : keepsAlive m₁.version
      (server.multimap.equalRange m₁.header (utf8 "Connection")) = true)
    (hrun₂ : (system server).run x (.responded :: bs) = some y) (hcalm₂ : ∀ a ∈ bs, a.Calm)
    (harrived₂ : bs.flatMap Action.bytes = m₂.text ++ body₂) (hquiet₂ : Quiet server y) :
    y.connection = if x.received = [] then found server m₂ content₂ x.connection.log
      else refused x.connection.log := by
  have hstart : OnItsWay server m₁ content₁ crlf [] {} (as.flatMap Action.bytes ++ []) := by
    rw [List.append_nil, harrived₁]
    exact underway_start framing₁
  have hway := onItsWay_run h₁ hstart hcalm₁ hrun₁
  obtain ⟨hfound, hsuffix⟩ := found_of_quiet h₁ hway hquiet₁
  have hsound : x.connection.terminated = false := by
    rw [hfound]
    exact found_terminated
  -- the response has been written, and a new session begins
  let t : HttpLink := ⟨⟨.header [], x.connection.log, false⟩, x.received⟩
  have hstep : step server x .responded = some t := by
    simp only [step, hresponding, responded, if_pos hkeep, hsound, t]
  rw [System.run_cons] at hrun₂
  have hrest : (system server).run t bs = some y := by
    simpa [system, hstep] using hrun₂
  -- either no byte is left, or what is left is a line end or half of one
  split
  · rename_i hempty
    have ht : OnItsWay server m₂ content₂ trailer₂ x.connection.log t
        (bs.flatMap Action.bytes ++ []) := by
      rw [List.append_nil, harrived₂, OnItsWay]
      simp only [t, hempty, List.nil_append]
      exact underway_start framing₂
    exact (found_of_quiet h₂ (onItsWay_run h₂ ht hcalm₂ hrest) hquiet₂).1
  · rename_i hleft
    have he := lineEnd_of_suffix hsuffix hleft
    have ht : Behind x.connection.log (x.received ++ (m₂.text ++ body₂)) t
        (bs.flatMap Action.bytes ++ []) := by
      rw [List.append_nil, harrived₂]
      exact .inr ⟨rfl, rfl⟩
    have hy := calm_run (P := Behind x.connection.log (x.received ++ (m₂.text ++ body₂)))
      (fun _ _ _ _ hx hcalm hstep => behind_step he hx hcalm hstep) ht hcalm₂ hrest
    exact refused_of_quiet he h₂ hroom hy hquiet₂

/-- A request without content. -/
def plainRequest : RequestMessage := ⟨utf8 "GET", utf8 "/", [], utf8 "1.1", []⟩

theorem plainRequest_sendable : Sendable httpServer plainRequest [] :=
  ⟨⟨by decide +kernel, by decide +kernel, by decide +kernel, by decide +kernel, nofun⟩,
    by decide +kernel, by decide, by decide⟩

/-- The line end is still there when the next request comes in. -/
def afterChunks : List Action := [.arrive plainRequest.text, .complete 20]

theorem chunked_next_refused :
    ∃ x y : HttpLink, (system httpServer).run {} cutInChunk = some x
      ∧ (system httpServer).run x (.responded :: afterChunks) = some y ∧ x.received = crlf
      ∧ y.connection = refused x.connection.log := by
  have hfirst : ((system httpServer).run {} cutInChunk).map
      (fun x => (x.connection.session, x.received)) = some (.responding chunkedRequest, crlf) := by
    decide +kernel
  have hsecond : ((system httpServer).run {} (cutInChunk ++ .responded :: afterChunks)).map
      (fun y => y.connection.session) = some .ended := by
    decide +kernel
  obtain ⟨x, hrun₁, hx⟩ := Option.map_eq_some_iff.mp hfirst
  obtain ⟨hsession, hreceived⟩ := Prod.mk.inj hx
  obtain ⟨y, hrun, hy⟩ := Option.map_eq_some_iff.mp hsecond
  obtain ⟨x', hrun', hrun₂⟩ := (system httpServer).run_append_eq_some.mp hrun
  obtain rfl := Option.some.inj (hrun₁.symm.trans hrun')
  have hquiet : ∀ z : HttpLink, wait httpServer z.connection.session = none →
      Quiet httpServer z := by
    intro z hz n
    unfold complete
    rw [hz]
  have framing₁ : Framing chunkedRequest.header [97, 98, 99] (chunksText [threeBytes]) crlf :=
    .chunked [threeBytes] (by decide +kernel) (by decide +kernel)
  have framing₂ : Framing plainRequest.header [] [] [] := .none rfl rfl
  have hnext := chunked_next chunkedRequest_sendable framing₁ plainRequest_sendable framing₂
    (by decide +kernel) hrun₁ (by simp [cutInChunk, Action.Calm]) (by decide +kernel)
    (hquiet x (by rw [hsession]; rfl)) hsession (by decide +kernel) hrun₂
    (by simp [afterChunks, Action.Calm]) (by decide +kernel) (hquiet y (by rw [hy]; rfl))
  rw [hreceived, if_neg (by decide)] at hnext
  exact ⟨x, y, hrun₁, hrun₂, hreceived, hnext⟩

end HttpLink

end MobaDisplay
