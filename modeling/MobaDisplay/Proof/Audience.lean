import MobaDisplay.Proof.Broadcast
import MobaDisplay.Proof.Panel

/-!
# What the pages show of what the control system says

Behind every connection there is a page. The browser gives it the texts it has read off
the socket, one after the other and whenever it likes, and its `onmessage` parses each and
handles it. So the pages are behind the control system, each by another stretch, but none
shows anything that was not so: the panel shows the last status among the first texts of
those broadcast since the page came. Where all of them have arrived it shows the last
status the control system has sent, if one was sent since.
-/

namespace MobaDisplay

open Cxx Js Transition

/-- `onmessage` with the text of an event. `JSON.parse` throws what it does not understand. -/
def Page.onText (parse : Bytes → Option JsValue) (p : Page) (text : Bytes) : Page :=
  match parse text with
  | some d => p.receive d
  | none => p

theorem foldl_onText (parse : Bytes → Option JsValue) (p : Page) (texts : List Bytes) :
    texts.foldl (Page.onText parse) p = p.receiveAll (texts.filterMap parse) := by
  induction texts generalizing p with
  | nil => rfl
  | cons text texts ih =>
      rw [List.foldl_cons, ih, Page.onText, List.filterMap_cons]
      cases parse text with
      | none => rfl
      | some d => rfl

/-- The server with its connections, and the pages at their other ends. -/
structure Audience (ι : Type) where
  outgoing : Outgoing ι
  /-- How many texts the browser has given to the page. -/
  given : ι → Nat
  page : ι → Page

namespace Audience

inductive Action (ι : Type) where
  | outgoing (a : Outgoing.Action ι)
  /-- The browser gives the next text to a page. -/
  | message (c : ι)

/-- The part of a step that is the server's. -/
def Action.server {ι : Type} : Action ι → Option (Outgoing.Action ι)
  | .outgoing a => some a
  | .message _ => none

variable {ι : Type} [DecidableEq ι]

/-- Every page around its drawing. -/
def start (svg : ι → Svg) : Audience ι := ⟨Outgoing.start, fun _ => 0, fun c => .loaded (svg c)⟩

def step (parse : Bytes → Option JsValue) (s : Audience ι) : Action ι → Option (Audience ι)
  | .outgoing a => (Outgoing.step s.outgoing a).map fun o => { s with outgoing := o }
  | .message c =>
      match (s.outgoing.heard c)[s.given c]? with
      | none => none
      | some text =>
          some { s with
            given := fun d => if d = c then s.given c + 1 else s.given d
            page := fun d => if d = c then (s.page c).onText parse text else s.page d }

variable {parse : Bytes → Option JsValue} {svg : ι → Svg}

def system (parse : Bytes → Option JsValue) (svg : ι → Svg) : System (Audience ι) (Action ι) where
  init := fun s => s = start svg
  step := step parse

/-- The browser gives a text that has been heard. -/
theorem step_message {s : Audience ι} {c : ι} (text : Bytes)
    (h : (s.outgoing.heard c)[s.given c]? = some text) :
    (system parse svg).step s (.message c) = some { s with
      given := fun d => if d = c then s.given c + 1 else s.given d
      page := fun d => if d = c then (s.page c).onText parse text else s.page d } := by
  simp only [system, step, h]

/-- The pages look on while the server runs. -/
theorem run_outgoing {as : List (Outgoing.Action ι)} {o o' : Outgoing ι}
    (h : Outgoing.system.run o as = some o') (given : ι → Nat) (page : ι → Page) :
    (system parse svg).run ⟨o, given, page⟩ (as.map .outgoing) = some ⟨o', given, page⟩ := by
  induction as generalizing o with
  | nil =>
      obtain rfl := Option.some.inj h
      rfl
  | cons a as ih =>
      rw [System.run_cons, Option.bind_eq_some_iff] at h
      obtain ⟨t, ht, hrest⟩ := h
      have hstep : step parse ⟨o, given, page⟩ (.outgoing a) = some ⟨t, given, page⟩ :=
        Option.map_eq_some_iff.mpr ⟨t, ht, rfl⟩
      rw [List.map_cons, System.run_cons, show (system parse svg).step = step parse from rfl,
        hstep]
      exact ih hrest

/-! ## The texts only become more -/

theorem wire_sendTexts (q : OutQueue) (data : List Bytes) :
    (Outgoing.sendTexts q data).wire = q.wire := by
  induction data generalizing q with
  | nil => rfl
  | cons d data ih =>
      rw [Outgoing.sendTexts, List.foldl_cons]
      exact (ih _).trans (SendQueue.Queue.send_wire q _)

theorem wire_outStep {s t : Outgoing ι} {c : ι} {e : SendQueue.Event WebSocket.Frame ErrorCode}
    (h : s.outStep c e = some t) (d : ι) : (s.out d).wire <+: (t.out d).wire := by
  obtain ⟨q, hq, rfl⟩ := Option.map_eq_some_iff.mp h
  dsimp only
  split
  · rename_i hd
    rw [hd]
    exact SendQueue.Queue.step_wire hq
  · exact List.prefix_refl _

theorem wire_step {s t : Outgoing ι} {a : Outgoing.Action ι} (h : Outgoing.step s a = some t)
    (d : ι) : (s.out d).wire <+: (t.out d).wire := by
  cases a with
  | server a =>
      obtain ⟨u, _, rfl⟩ := Option.map_eq_some_iff.mp h
      dsimp only
      rw [wire_sendTexts]
  | reply c head message =>
      simp only [Outgoing.step] at h
      split at h
      · exact absurd h (by simp)
      · exact wire_outStep h d
  | transfer c i n => exact wire_outStep h d
  | complete c i => exact wire_outStep h d
  | fail c i ec => exact wire_outStep h d
  | halt c => exact wire_outStep h d

theorem heard_step {s t : Outgoing ι} {a : Outgoing.Action ι} (h : Outgoing.step s a = some t)
    (d : ι) : s.heard d <+: t.heard d :=
  Outgoing.texts_prefix (WebSocket.frames_mono (wire_step h d))

/-! ## Every page is what it was given -/

/-- A page has handled the texts it was given, which are the first of those heard. -/
structure Inv (parse : Bytes → Option JsValue) (svg : ι → Svg) (s : Audience ι) : Prop where
  given : ∀ c, s.given c ≤ (s.outgoing.heard c).length
  page : ∀ c, s.page c
    = (Page.loaded (svg c)).receiveAll (((s.outgoing.heard c).take (s.given c)).filterMap parse)

omit [DecidableEq ι] in
theorem inv_start : Inv parse svg (start svg) := ⟨fun _ => Nat.zero_le _, fun _ => rfl⟩

theorem inv_outgoing {s : Audience ι} (h : Inv parse svg s) {a : Outgoing.Action ι}
    {o : Outgoing ι} (hstep : Outgoing.step s.outgoing a = some o) :
    Inv parse svg { s with outgoing := o } := by
  -- what is heard only grows behind what was given
  refine ⟨?_, ?_⟩
  · intro c
    exact (h.given c).trans (heard_step hstep c).length_le
  · intro c
    obtain ⟨more, hmore⟩ := heard_step hstep c
    rw [h.page c, ← hmore, List.take_append_of_le_length (h.given c)]

theorem inv_message {s : Audience ι} (h : Inv parse svg s) {c : ι} {text : Bytes}
    (htext : (s.outgoing.heard c)[s.given c]? = some text) :
    Inv parse svg { s with
      given := fun d => if d = c then s.given c + 1 else s.given d
      page := fun d => if d = c then (s.page c).onText parse text else s.page d } := by
  obtain ⟨hlt, hget⟩ := List.getElem?_eq_some_iff.mp htext
  refine ⟨?_, ?_⟩
  · intro d
    dsimp only
    split
    · rename_i hd
      rw [hd]
      exact hlt
    · exact h.given d
  · intro d
    dsimp only
    by_cases hd : d = c
    · subst hd
      rw [if_pos rfl, if_pos rfl, h.page, ← foldl_onText, ← foldl_onText, ← hget,
        ← List.take_concat_get' _ _ hlt, List.foldl_append]
      rfl
    · rw [if_neg hd, if_neg hd]
      exact h.page d

theorem inv_step {s t : Audience ι} {a : Action ι} (h : Inv parse svg s)
    (hstep : step parse s a = some t) : Inv parse svg t := by
  cases a with
  | outgoing a =>
      obtain ⟨o, ho, rfl⟩ := Option.map_eq_some_iff.mp hstep
      exact inv_outgoing h ho
  | message c =>
      simp only [step] at hstep
      split at hstep
      · exact absurd hstep (by simp)
      · rename_i text htext
        obtain rfl := Option.some.inj hstep
        exact inv_message h htext

/-- **The server does not see the pages**: its part of a run is a run of its own. -/
theorem run_server {as : List (Action ι)} {s : Audience ι}
    (hrun : (system parse svg).run (start svg) as = some s) :
    Inv parse svg s
      ∧ Outgoing.system.run Outgoing.start (as.filterMap Action.server) = some s.outgoing := by
  refine System.run_induction (P := fun as s => Inv parse svg s
    ∧ Outgoing.system.run Outgoing.start (as.filterMap Action.server) = some s.outgoing)
    ⟨inv_start, rfl⟩ ?_ hrun
  rintro before t a u _ ⟨hinv, hbefore⟩ hstep
  refine ⟨inv_step hinv hstep, ?_⟩
  rw [List.filterMap_append]
  cases a with
  | outgoing a =>
      obtain ⟨o, ho, rfl⟩ := Option.map_eq_some_iff.mp hstep
      exact (Outgoing.system.run_snoc).mpr ⟨t.outgoing, hbefore, ho⟩
  | message c =>
      change step parse t (.message c) = some u at hstep
      simp only [step] at hstep
      split at hstep
      · exact absurd hstep (by simp)
      · obtain rfl := Option.some.inj hstep
        rw [show ([.message c] : List (Action ι)).filterMap Action.server = [] from rfl,
          List.append_nil]
        exact hbefore

/-! ## What the pages show -/

/-- The last status in a row of texts. -/
def statusOf (parse : Bytes → Option JsValue) (texts : List Bytes) : Option Status :=
  lastStatus (texts.filterMap parse)

theorem statusOf_append {texts more : List Bytes} {status : Status}
    (h : statusOf parse more = some status) : statusOf parse (texts ++ more) = some status := by
  unfold statusOf lastStatus at h ⊢
  rw [List.filterMap_append, List.filterMap_append, List.getLast?_append, h]
  rfl

/-- Between two messages of the control system, nothing waits to be broadcast. -/
theorem returned_of_receiving {s : WebServer ι} (hr : WebServer.system.Reachable s)
    (hthread : s.thread = .receiving) (c : ι) :
    s.due c = [] ∧ s.returned = Hub.sends s.history := by
  have hphase := (WebServer.taskInv_reachable hr).phase
  have hpending := WebServer.pending_nil hphase (by simp [hthread])
  obtain ⟨hqueue, hrunning⟩ := WebServer.queue_of_pending_nil hpending
  refine ⟨?_, ?_⟩
  · unfold WebServer.running at hrunning
    unfold WebServer.due
    cases hio : s.io with
    | idle => rfl
    | broadcasting task rest =>
        rw [hio] at hrunning
        exact absurd hrunning (by simp)
  · rw [(WebServer.deliveryInv_reachable hr).returned, WebServer.unsent, hqueue,
      WebServer.unposted_eq_nil (by simp [hthread])]
    simp

/-- Whoever is inside has missed nothing since it joined. -/
theorem stretch_suffix {c : ι} {h : List (Hub.Event ι Bytes)} (hinside : Hub.inside c h = true) :
    Hub.stretch c h <:+ Hub.sends h := by
  have hmissed : Hub.missed c h = [] := by
    unfold Hub.inside at hinside
    have hleft : Hub.left c h = false := by simpa using (Bool.and_eq_true_iff.mp hinside).2
    have hnone : (Hub.since c h).dropWhile (fun e => !Hub.isLeave c e) = [] := by
      rw [List.dropWhile_eq_nil_iff]
      intro e he
      rw [Hub.left, List.any_eq_false] at hleft
      simpa using hleft e he
    rw [Hub.missed, hnone]
    rfl
  exact ⟨Hub.before c h, by rw [Hub.sends_split c h, hmissed, List.append_nil]⟩

/--
**No page shows a status that was not so, and at rest all show the last one.** However
the server, the sockets and the browsers take turns, the panel of a page whose writes do
not fail shows the last status among the first texts of those broadcast since it came. If
it has been given all of them, and the message thread waits for the next one, it shows
the last status among all that were sent since it came, and that is the last one the
control system has sent at all.
-/
theorem pages_show_status {as : List (Action ι)} {s : Audience ι}
    (hrun : (system parse svg).run (start svg) as = some s) {c : ι}
    (hfail : ∀ i ec, .outgoing (.fail c i ec) ∉ as)
    (hsize : ∀ f ∈ (s.outgoing.out c).sentFrames, f.payload.length < 2 ^ 64) :
    (∃ texts, texts <+: Hub.stretch c s.outgoing.server.history
        ∧ ShowsStatus (s.page c) (statusOf parse texts))
      ∧ (c ∈ s.outgoing.server.connections → (s.outgoing.out c).queue = [] →
          s.given c = (s.outgoing.heard c).length → s.outgoing.server.thread = .receiving →
        ∃ missed texts, s.outgoing.server.returned = missed ++ texts
          ∧ ShowsStatus (s.page c) (statusOf parse texts)
          ∧ ∀ status, statusOf parse texts = some status →
            statusOf parse s.outgoing.server.returned = some status) := by
  obtain ⟨hinv, hserver⟩ := run_server hrun
  have hfail' : ∀ i ec, .fail c i ec ∉ as.filterMap Action.server := by
    intro i ec hmem
    obtain ⟨a, ha, hfails⟩ := List.mem_filterMap.mp hmem
    cases a with
    | outgoing a =>
        obtain rfl := Option.some.inj hfails
        exact hfail i ec ha
    | message d => exact absurd hfails (by simp [Action.server])
  obtain ⟨hout, hsound⟩ := Outgoing.inv_run hserver hfail'
  obtain ⟨hfirst, hall⟩ := hout.heard hsound hsize
  have hshows : ShowsStatus (s.page c)
      (statusOf parse ((s.outgoing.heard c).take (s.given c))) := by
    rw [hinv.page c]
    exact showsStatus_receiveAll (svg c) _
  refine ⟨⟨_, (List.take_prefix _ _).trans hfirst, hshows⟩, ?_⟩
  intro hc hqueue hgiven hthread
  -- the thread is back in front of the next message, so nothing is due to anybody
  obtain ⟨hdue, hreturned⟩ := returned_of_receiving hout.server hthread c
  have hinside := ((WebServer.deliveryInv_reachable hout.server).inside c).mp hc
  obtain ⟨missed, hmissed⟩ := stretch_suffix hinside
  have hheard := hall hqueue
  rw [hdue, List.append_nil] at hheard
  rw [hgiven, List.take_length, hheard] at hshows
  have hsplit : s.outgoing.server.returned
      = missed ++ Hub.stretch c s.outgoing.server.history := hreturned.trans hmissed.symm
  refine ⟨missed, _, hsplit, hshows, ?_⟩
  intro status hstatus
  rw [hsplit]
  exact statusOf_append hstatus

/-- A status, as the control system sends it. -/
def stop : Bytes := utf8 "\x7b\"groupId\":7,\"messageId\":5,\"data\":\"EMERGENCY_STOP\"\x7d"

/-- `JSON.parse` of it. -/
def parseStop (text : Bytes) : Option JsValue :=
  if text = stop then some (message "7" "5" (.string "EMERGENCY_STOP")) else none

/-- A page that comes between two texts. -/
def oneStop : List (Outgoing.Action Nat) :=
  [.server (.connect none), .server (.receive [104, 105]), .server .post, .server (.begin []),
    .server .finish, .server (.connectionOpen 0), .server .wake, .server (.receive stop),
    .server .post, .server (.begin [0]), .server .send, .transfer 0 0 53, .complete 0 0,
    .server .finish, .server .wake]

/-- A drawing without blocks and switches. -/
def noDrawing : Svg := ⟨fun _ => "", fun _ _ => false⟩

/-- It shows the second of them. -/
theorem pages_show_status_stop :
    ∃ s, (system parseStop fun _ => noDrawing).run (start fun _ => noDrawing)
        (oneStop.map .outgoing ++ [.message 0]) = some s
      ∧ ∃ missed texts, s.outgoing.server.returned = missed ++ texts
        ∧ ShowsStatus (s.page 0) (statusOf parseStop texts) := by
  have hserver : Outgoing.system.run Outgoing.start oneStop = some _ := rfl
  have hbefore : (system parseStop fun _ => noDrawing).run (start fun _ => noDrawing)
      (oneStop.map .outgoing) = some ⟨_, _, _⟩ := run_outgoing hserver _ _
  have hrun : (system parseStop fun _ => noDrawing).run (start fun _ => noDrawing)
      (oneStop.map .outgoing ++ [.message 0]) = some _ :=
    (System.run_snoc _).mpr ⟨_, hbefore, step_message stop (by decide +kernel)⟩
  have hfail : ∀ i ec, Action.outgoing (.fail 0 i ec)
      ∉ oneStop.map Action.outgoing ++ [.message 0] := by
    simp [oneStop]
  have hsize : ∀ f ∈ [outFrame Outgoing.text stop], f.payload.length < 2 ^ 64 := by
    intro f hf
    rw [List.mem_singleton.mp hf]
    decide +kernel
  have hshows := pages_show_status hrun hfail hsize
  have hrest := hshows.2 (by decide) rfl (by decide +kernel) rfl
  obtain ⟨missed, texts, hsplit, hstatus, _⟩ := hrest
  exact ⟨_, hrun, missed, texts, hsplit, hstatus⟩

end Audience

end MobaDisplay
