import MobaDisplay.Network.Startup

/-!
# A page and the answers to its own requests

No answer carries an address, so a page handles the answers to the requests of
every other page, and transitions, from the moment it joins: the first message it
handles can be one that looks up a train. What does hold is about its own requests.
They are answered in the order it sent them, it is inside when they are, and it
handles what was broadcast in the order of the broadcasts; so from the answer to
its own train list request on, nothing reaches it before a train list.
-/

namespace MobaDisplay

open Cxx Transition

namespace Network

variable {ι : Type} {svg : Svg}

/-! ## The log -/

/-- **The log invariant**: numbers grow, and answers fit their requests. -/
structure LogInv (s : Network ι) : Prop where
  /-- Every number is below the length of the log. -/
  below : ∀ e ∈ s.log, e.number < s.log.length
  /-- Later messages have larger numbers. -/
  sorted : s.log.Pairwise (fun a b => a.number < b.number)
  /-- A message that answers a request is of the kind the request asks for. -/
  fits : ∀ e ∈ s.log, ∀ r, e.answers = some r → e.message.answers r.2 = true

theorem logInv_start : LogInv (start : Network ι) :=
  ⟨by simp [start], by simp [start], by simp [start]⟩

theorem logInv_emit {s : Network ι} (h : LogInv s) {answers : Option (ι × SendMsgCall)}
    {m : Message} (hm : ∀ r, answers = some r → m.answers r.2 = true) :
    LogInv (s.emit answers m) := by
  refine ⟨?_, ?_, ?_⟩
  · intro e he
    simp only [emit, List.mem_append, List.mem_singleton, List.length_append,
      List.length_singleton] at he ⊢
    rcases he with he | rfl
    · have := h.below e he
      omega
    · exact Nat.lt_succ_self _
  · simp only [emit, List.pairwise_append]
    refine ⟨h.sorted, by simp, ?_⟩
    intro a ha b hb
    rw [List.mem_singleton.mp hb]
    exact h.below a ha
  · intro e he r hr
    simp only [emit, List.mem_append, List.mem_singleton] at he
    rcases he with he | rfl
    · exact h.fits e he r hr
    · exact hm r hr

theorem logInv_congr {s t : Network ι} (h : LogInv s) (heq : t.log = s.log) : LogInv t :=
  ⟨by rw [heq]; exact h.below, by rw [heq]; exact h.sorted, by rw [heq]; exact h.fits⟩

variable [DecidableEq ι]

theorem logInv_step {s s' : Network ι} {a : Action ι} (h : LogInv s) (hs : step svg s a = some s') :
    LogInv s' := by
  cases step_cases hs with
  | join hnew => exact logInv_congr h rfl
  | onopen hc hopen => exact logInv_congr h rfl
  | forward hc hout hset => exact logInv_congr h rfl
  | answer hreq hm =>
      refine logInv_congr (logInv_emit h ?_) rfl
      intro r hr
      exact Option.some.inj hr ▸ hm
  | report => exact logInv_emit h (fun r hr => absurd hr (by simp))
  | broadcast hpending => exact logInv_congr h rfl
  | handle hc hin hopen => exact logInv_congr h rfl
  | leave hc hset => exact logInv_congr h rfl

theorem logInv_reachable {s : Network ι} (hr : (system svg).Reachable s) : LogInv s :=
  hr.invariant (P := LogInv) (fun _ h0 => start_of_init h0 ▸ logInv_start)
    (fun _ _ _ _ h hs => logInv_step h hs)

/-! ## Requests keep their order -/

/-- The request of page `i`, if it is one. -/
def requestOf (i : ι) (r : ι × SendMsgCall) : Option SendMsgCall :=
  if r.1 = i then some r.2 else none

/-- The request of page `i` a message answers. -/
def answerTo (i : ι) (e : Emission ι) : Option SendMsgCall := e.answers.bind (requestOf i)

/-- The frames of a page the server has not handled, as requests. -/
def waiting (i : ι) (s : Network ι) : List SendMsgCall :=
  match s.clients i with
  | none => []
  | some c => c.outgoing.map Frame.call

/-- What a page has asked for so far. -/
def asked (i : ι) (s : Network ι) : List SendMsgCall :=
  match s.clients i with
  | none => []
  | some c => if c.opened then Frame.onopen.map Frame.call else []

/--
**Nothing a page asks for is lost, repeated or overtaken**: what was answered, what
the control system has not answered and what the server has not handled are, in
this order, what the page asked for.
-/
def InOrder (s : Network ι) : Prop :=
  ∀ i, s.log.filterMap (answerTo i) ++ s.requests.filterMap (requestOf i) ++ waiting i s
    = asked i s

theorem inOrder_start : InOrder (start : Network ι) := fun _ => rfl

/-- A step that changes no client's frames and neither log nor requests. -/
theorem inOrder_congr {s t : Network ι} (h : InOrder s) (hlog : t.log = s.log)
    (hreq : t.requests = s.requests) (hw : ∀ i, waiting i t = waiting i s)
    (ha : ∀ i, asked i t = asked i s) : InOrder t := by
  intro i
  rw [hlog, hreq, hw, ha]
  exact h i

/-- Writing back a client with the same frames changes nothing here. -/
theorem waiting_setClient {s : Network ι} {i : ι} {c d : Client ι} (hc : s.clients i = some c)
    (hout : d.outgoing = c.outgoing) (hopen : d.opened = c.opened) (j : ι) :
    waiting j (s.setClient i d) = waiting j s ∧ asked j (s.setClient i d) = asked j s := by
  by_cases hj : j = i
  · subst hj
    simp [waiting, asked, setClient_self, hc, hout, hopen]
  · simp [waiting, asked, setClient_ne s d hj]

theorem inOrder_step {s s' : Network ι} {a : Action ι} (h : InOrder s)
    (hs : step svg s a = some s') : InOrder s' := by
  cases step_cases hs with
  | @join i hnew =>
      intro j
      by_cases hj : j = i
      · subst hj
        have hbefore := h j
        simp only [waiting, asked, hnew] at hbefore
        simpa [waiting, asked, setClient] using hbefore
      · have hbefore := h j
        simpa [waiting, asked, setClient, hj] using hbefore
  | @onopen i c hc hopen =>
      intro j
      by_cases hj : j = i
      · subst hj
        -- a page that has not sent anything has nothing on the way
        have hbefore := h j
        simp only [waiting, asked, hc, hopen, Bool.false_eq_true, if_false, List.append_eq_nil_iff,
          List.map_eq_nil_iff] at hbefore
        obtain ⟨⟨hlog, hreq⟩, hout⟩ := hbefore
        simp [waiting, asked, setClient, hlog, hreq]
      · have hbefore := h j
        simpa [waiting, asked, setClient, hj] using hbefore
  | @forward i c f fs hc hout hset =>
      intro j
      have hbefore := h j
      by_cases hj : j = i
      · subst hj
        simp only [waiting, asked, hc, hout, List.map_cons] at hbefore
        simpa [waiting, asked, setClient, List.filterMap_append, requestOf] using hbefore
      · simpa [waiting, asked, setClient, hj, List.filterMap_append, requestOf, Ne.symm hj]
          using hbefore
  | @answer m r rs hreq hm =>
      intro j
      have hbefore := h j
      rw [hreq] at hbefore
      by_cases hj : r.1 = j
      · simpa [waiting, asked, emit, List.filterMap_append, answerTo, requestOf, hj] using hbefore
      · simpa [waiting, asked, emit, List.filterMap_append, answerTo, requestOf, hj] using hbefore
  | @report data =>
      intro j
      have hbefore := h j
      simpa [waiting, asked, emit, List.filterMap_append, List.filterMap_cons, answerTo]
        using hbefore
  | @broadcast e es hpending =>
      -- a delivery writes the inbox only
      refine inOrder_congr h rfl rfl ?_ ?_
      · intro i
        cases hc : s.clients i with
        | none => simp [waiting, hc]
        | some c => simp [waiting, hc]
      · intro i
        cases hc : s.clients i with
        | none => simp [asked, hc]
        | some c => simp [asked, hc]
  | @handle i c e es hc hin hopen =>
      have hsame := waiting_setClient (d := { c with
        inbox := es
        handled := c.handled ++ [e]
        page := c.page.receive e.message.parsed }) hc rfl rfl
      exact inOrder_congr h rfl rfl (fun j => (hsame j).1) (fun j => (hsame j).2)
  | @leave i c hc hset =>
      have hsame := waiting_setClient (d := { c with inSet := false }) hc rfl rfl
      exact inOrder_congr h rfl rfl (fun j => (hsame j).1) (fun j => (hsame j).2)

theorem inOrder_reachable {s : Network ι} (hr : (system svg).Reachable s) : InOrder s :=
  hr.invariant (P := InOrder) (fun _ h0 => start_of_init h0 ▸ inOrder_start)
    (fun _ _ _ _ h hs => inOrder_step h hs)

/-! ## What a page handles is its stretch of the broadcasts -/

/-- **The pages are members of a hub**, and the log is what is sent there. -/
structure HubInv (s : Network ι) : Prop where
  /-- What was broadcast and what is pending is what the control system sent. -/
  log : Hub.sends s.history ++ s.pending = s.log
  /-- A page has, handled or not, exactly its stretch. -/
  stretch : ∀ i c, s.clients i = some c → c.handled ++ c.inbox = Hub.stretch i s.history
  /-- The broadcast set holds those inside. -/
  inside : ∀ i c, s.clients i = some c → c.inSet = Hub.inside i s.history
  /-- The pages there are are those that have joined. -/
  joined : ∀ i, Hub.joined i s.history = (s.clients i).isSome
  /-- Nothing a page asked for was answered before it joined. -/
  fresh : ∀ i c, s.clients i = some c → ∀ e ∈ Hub.before i s.history, answerTo i e = none

theorem hubInv_start : HubInv (start : Network ι) where
  log := rfl
  stretch := by intro i c hc; exact absurd hc (by simp [start])
  inside := by intro i c hc; exact absurd hc (by simp [start])
  joined := fun _ => rfl
  fresh := by intro i c hc; exact absurd hc (by simp [start])

theorem joined_of_client {s : Network ι} (h : HubInv s) {i : ι} {c : Client ι}
    (hc : s.clients i = some c) : Hub.joined i s.history = true := by
  rw [h.joined, hc]
  rfl

/-- Writing back a client that has the same messages, and nothing happens to the set. -/
theorem hubInv_setClient {s : Network ι} (h : HubInv s) {i : ι} {c d : Client ι}
    (hc : s.clients i = some c) (hgot : d.handled ++ d.inbox = c.handled ++ c.inbox)
    (hset : d.inSet = c.inSet) : HubInv (s.setClient i d) := by
  -- every client of the new state has the messages and the place of one of the old
  have hold : ∀ j d', (s.setClient i d).clients j = some d' →
      ∃ c', s.clients j = some c' ∧ d'.handled ++ d'.inbox = c'.handled ++ c'.inbox
        ∧ d'.inSet = c'.inSet := by
    intro j d' hd'
    by_cases hj : j = i
    · subst hj
      obtain rfl := Option.some.inj ((setClient_self s j d).symm.trans hd')
      exact ⟨c, hc, hgot, hset⟩
    · exact ⟨d', (setClient_ne s d hj).symm.trans hd', rfl, rfl⟩
  refine ⟨h.log, ?_, ?_, ?_, ?_⟩
  · intro j d' hd'
    obtain ⟨c', hc', hgot', _⟩ := hold j d' hd'
    rw [hgot']
    exact h.stretch j c' hc'
  · intro j d' hd'
    obtain ⟨c', hc', _, hset'⟩ := hold j d' hd'
    rw [hset']
    exact h.inside j c' hc'
  · intro j
    by_cases hj : j = i
    · subst hj
      rw [setClient_self]
      exact joined_of_client h hc
    · rw [setClient_ne s d hj]
      exact h.joined j
  · intro j d' hd'
    obtain ⟨c', hc', _, _⟩ := hold j d' hd'
    exact h.fresh j c' hc'

theorem hubInv_emit {s : Network ι} (h : HubInv s) (answers : Option (ι × SendMsgCall))
    (m : Message) : HubInv (s.emit answers m) where
  log := by
    simp only [emit]
    rw [← List.append_assoc, h.log]
  stretch := h.stretch
  inside := h.inside
  joined := h.joined
  fresh := h.fresh

/-- Requests play no part in it. -/
theorem hubInv_requests {s : Network ι} (h : HubInv s) (rs : List (ι × SendMsgCall)) :
    HubInv { s with requests := rs } := ⟨h.log, h.stretch, h.inside, h.joined, h.fresh⟩

/-- A page joins, and has nothing yet. -/
theorem hubInv_join {s : Network ι} (h : HubInv s) (ho : InOrder s) {i : ι} {page : Page}
    (hnew : s.clients i = none) :
    HubInv { s.setClient i ⟨true, false, [], [], [], page⟩ with
      history := s.history ++ [.join i] } := by
  have hnot : Hub.joined i s.history = false := by rw [h.joined, hnew]; rfl
  refine ⟨?_, ?_, ?_, ?_, ?_⟩
  · simp only [Hub.sends_append, Hub.sends, List.append_nil]
    exact h.log
  · intro j d hd
    simp only [Hub.stretch_snoc, Hub.sends, ite_self, List.append_nil]
    by_cases hj : j = i
    · subst hj
      obtain rfl := Option.some.inj ((setClient_self s j _).symm.trans hd)
      rw [Hub.stretch_of_not_joined hnot]
      rfl
    · exact h.stretch j d ((setClient_ne s _ hj).symm.trans hd)
  · intro j d hd
    simp only [Hub.inside_join]
    by_cases hj : j = i
    · subst hj
      obtain rfl := Option.some.inj ((setClient_self s j _).symm.trans hd)
      simp [hnot]
    · rw [h.inside j d ((setClient_ne s _ hj).symm.trans hd)]
      simp [Ne.symm hj]
  · intro j
    simp only [Hub.joined_snoc, h.joined]
    by_cases hj : j = i
    · subst hj
      simp [Hub.isJoin, setClient]
    · simp [Hub.isJoin, setClient, hj, Ne.symm hj]
  · intro j d hd e he
    by_cases hj : j = i
    · subst hj
      -- before it joined, nothing was asked, so nothing was answered
      have hempty := ho j
      simp only [waiting, asked, hnew, List.append_eq_nil_iff, List.filterMap_eq_nil_iff]
        at hempty
      refine hempty.1.1 e ?_
      rw [← h.log]
      have hmem := (Hub.before_prefix j _).subset he
      simp only [Hub.sends_append, Hub.sends, List.append_nil] at hmem
      exact List.mem_append_left _ hmem
    · have hd' : s.clients j = some d := (setClient_ne s _ hj).symm.trans hd
      have he' : e ∈ Hub.before j (s.history ++ [.join i]) := he
      rw [Hub.before_snoc_of_joined (joined_of_client h hd')] at he'
      exact h.fresh j d hd' e he'

/-- A broadcast adds to the stretch of everyone inside, and to their inboxes. -/
theorem hubInv_broadcast {s : Network ι} (h : HubInv s) {e : Emission ι} {es : List (Emission ι)}
    (hpending : s.pending = e :: es) :
    HubInv { s with
      clients := fun i => (s.clients i).map (Client.deliver e)
      pending := es
      history := s.history ++ [.send e] } := by
  have hold : ∀ j d, (s.clients j).map (Client.deliver e) = some d →
      ∃ c, s.clients j = some c ∧ d = Client.deliver e c := by
    intro j d hd
    obtain ⟨c, hc, rfl⟩ := Option.map_eq_some_iff.mp hd
    exact ⟨c, hc, rfl⟩
  refine ⟨?_, ?_, ?_, ?_, ?_⟩
  · have hlog := h.log
    rw [hpending] at hlog
    simpa [Hub.sends_append, Hub.sends] using hlog
  · intro j d hd
    obtain ⟨c, hc, rfl⟩ := hold j d hd
    simp only [Hub.stretch_snoc, Hub.sends, ← h.stretch j c hc, ← h.inside j c hc]
    rw [deliver_handled, deliver_inbox, List.append_assoc]
  · intro j d hd
    obtain ⟨c, hc, rfl⟩ := hold j d hd
    simp only [Hub.inside_send, ← h.inside j c hc]
    exact deliver_inSet e c
  · intro j
    simp [Hub.joined_snoc, h.joined, Hub.isJoin]
  · intro j d hd e' he'
    obtain ⟨c, hc, rfl⟩ := hold j d hd
    simp only [Hub.before_snoc_of_joined (joined_of_client h hc)] at he'
    exact h.fresh j c hc e' he'

/-- A page that leaves keeps what it has. -/
theorem hubInv_leave {s : Network ι} (h : HubInv s) {i : ι} {c : Client ι}
    (hc : s.clients i = some c) :
    HubInv { s.setClient i { c with inSet := false } with
      history := s.history ++ [.leave i] } := by
  have hold : ∀ j d, (s.setClient i { c with inSet := false }).clients j = some d →
      ∃ d₀, s.clients j = some d₀ ∧ d.handled = d₀.handled ∧ d.inbox = d₀.inbox
        ∧ d.inSet = (d₀.inSet && !decide (i = j)) := by
    intro j d hd
    by_cases hj : j = i
    · subst hj
      obtain rfl := Option.some.inj ((setClient_self s j _).symm.trans hd)
      exact ⟨c, hc, rfl, rfl, by simp⟩
    · exact ⟨d, (setClient_ne s _ hj).symm.trans hd, rfl, rfl, by simp [Ne.symm hj]⟩
  refine ⟨?_, ?_, ?_, ?_, ?_⟩
  · simp only [Hub.sends_append, Hub.sends, List.append_nil]
    exact h.log
  · intro j d hd
    obtain ⟨d₀, hd₀, hhandled, hinbox, _⟩ := hold j d hd
    simp only [Hub.stretch_snoc, Hub.sends, ite_self, List.append_nil]
    rw [hhandled, hinbox]
    exact h.stretch j d₀ hd₀
  · intro j d hd
    obtain ⟨d₀, hd₀, _, _, hset'⟩ := hold j d hd
    simp only [Hub.inside_leave]
    rw [hset', h.inside j d₀ hd₀]
  · intro j
    simp only [Hub.joined_snoc, Hub.isJoin, Bool.or_false, h.joined]
    by_cases hj : j = i
    · subst hj
      simp [setClient, hc]
    · simp [setClient, hj]
  · intro j d hd e he
    obtain ⟨d₀, hd₀, _, _, _⟩ := hold j d hd
    simp only [Hub.before_snoc_of_joined (joined_of_client h hd₀)] at he
    exact h.fresh j d₀ hd₀ e he

theorem hubInv_step {s s' : Network ι} {a : Action ι} (h : HubInv s) (ho : InOrder s)
    (hs : step svg s a = some s') : HubInv s' := by
  cases step_cases hs with
  | join hnew => exact hubInv_join h ho hnew
  | @onopen i c hc hopen => exact hubInv_setClient h hc rfl rfl
  | @forward i c f fs hc hout hset =>
      exact hubInv_requests (hubInv_setClient h (d := { c with outgoing := fs }) hc rfl rfl) _
  | @answer m r rs hreq hm => exact hubInv_requests (hubInv_emit h (some r) m) rs
  | @report data => exact hubInv_emit h none _
  | broadcast hpending => exact hubInv_broadcast h hpending
  | @handle i c e es hc hin hopen => exact hubInv_setClient h hc (by simp [hin]) rfl
  | leave hc hset => exact hubInv_leave h hc

theorem hubInv_reachable {s : Network ι} (hr : (system svg).Reachable s) : HubInv s :=
  hr.invariant (P := HubInv) (fun _ h0 => start_of_init h0 ▸ hubInv_start)
    (fun _ _ _ hreach h hs => hubInv_step h (inOrder_reachable hreach) hs)

/-! ## Its own requests -/

theorem isTrainList_of_answers {m : Message} (h : m.answers Frame.getTrainListReq.call = true) :
    m.isTrainList = true := by
  cases m with
  | hardwareState status => exact absurd h (by simp [Message.answers, Frame.call])
  | control m =>
      cases m with
      | trainList items => rfl
      | blockList items => exact absurd h (by simp [Message.answers, Frame.call])
      | switchList items => exact absurd h (by simp [Message.answers, Frame.call])
      | transition data => exact absurd h (by simp [Message.answers])

theorem not_looksUpTrains_of_isTrainList {m : Message} (h : m.isTrainList = true) :
    m.looksUpTrains = false := by
  cases m with
  | hardwareState status => rfl
  | control m =>
      cases m with
      | trainList items => rfl
      | _ => exact absurd h (by simp [Message.isTrainList])

/-- What comes before the block list request among the requests of `ws.onopen`. -/
theorem before_blockListReq {l r : List SendMsgCall}
    (h : l ++ Frame.getBlockListReq.call :: r = Frame.onopen.map Frame.call) :
    Frame.getTrainListReq.call ∈ l := by
  have hlen := congrArg List.length h
  simp only [Frame.onopen, List.map_cons, List.map_nil] at h
  match l with
  | [] => exact absurd (List.cons.inj h).1 (by simp [Frame.call])
  | [a] => exact absurd (List.cons.inj (List.cons.inj h).2).1 (by simp [Frame.call])
  | a :: b :: l =>
      have hb := (List.cons.inj (List.cons.inj h).2).1
      rw [hb]
      simp

/-- **Its block list request is answered after its train list request.** -/
theorem train_list_answered_first {s : Network ι} (hr : (system svg).Reachable s) {i : ι}
    {e : Emission ι} (he : e ∈ s.log) (hown : e.answers = some (i, Frame.getBlockListReq.call)) :
    ∃ a ∈ s.log, a.answers = some (i, Frame.getTrainListReq.call) ∧ a.number < e.number := by
  obtain ⟨l, r, hlog⟩ := List.append_of_mem he
  have horder := inOrder_reachable hr i
  have hanswer : answerTo i e = some Frame.getBlockListReq.call := by
    simp [answerTo, hown, requestOf]
  rw [hlog, List.filterMap_append, List.filterMap_cons, hanswer, List.append_assoc,
    List.append_assoc] at horder
  have hmem : Frame.getTrainListReq.call ∈ l.filterMap (answerTo i) := by
    cases hc : s.clients i with
    | none => exact absurd horder (by simp [asked, hc])
    | some c =>
        cases hopen : c.opened with
        | false => exact absurd horder (by simp [asked, hc, hopen])
        | true =>
            unfold asked at horder
            rw [hc] at horder
            simp only [hopen, if_true] at horder
            exact before_blockListReq horder
  obtain ⟨a, ha, hanswers⟩ := List.mem_filterMap.mp hmem
  refine ⟨a, by rw [hlog]; exact List.mem_append_left _ ha, ?_, ?_⟩
  · obtain ⟨q, hq, hi⟩ := Option.bind_eq_some_iff.mp hanswers
    unfold requestOf at hi
    split at hi
    · rename_i hqi
      rw [hq, ← hqi, ← Option.some.inj hi]
    · exact absurd hi (by simp)
  · have hsorted := (logInv_reachable hr).sorted
    rw [hlog, List.pairwise_append] at hsorted
    exact hsorted.2.2 a ha e (by simp)

/-- What the control system answered a page with lies in the page's stretch or behind it. -/
theorem log_split {s : Network ι} (hr : (system svg).Reachable s) {i : ι} {c : Client ι}
    (hc : s.clients i = some c) :
    ∃ old later, s.log = old ++ c.handled ++ later ∧ ∀ e ∈ old, answerTo i e = none := by
  have hinv := hubInv_reachable hr
  refine ⟨Hub.before i s.history, c.inbox ++ Hub.missed i s.history ++ s.pending, ?_,
    hinv.fresh i c hc⟩
  rw [← hinv.log, Hub.sends_split i s.history, ← hinv.stretch i c hc]
  simp only [List.append_assoc]

/--
**Nothing that looks up trains overtakes a page's own train list.**

A block list or a transition that the control system sent no earlier than its
answer to the page's own train list request is handled behind a train list; in
particular the answer to the page's own block list request is.
-/
theorem train_list_handled_first {s : Network ι} (hr : (system svg).Reachable s) {i : ι}
    {c : Client ι} (hc : s.clients i = some c) {before rest : List (Emission ι)} {e : Emission ι}
    (hsplit : c.handled = before ++ e :: rest) (hlooks : e.message.looksUpTrains = true)
    (hown : e.answers = some (i, Frame.getBlockListReq.call)
      ∨ ∃ a ∈ s.log, a.answers = some (i, Frame.getTrainListReq.call) ∧ a.number ≤ e.number) :
    ∃ t ∈ before, t.message.isTrainList = true := by
  obtain ⟨old, later, hlog, hold⟩ := log_split hr hc
  have hinv := logInv_reachable hr
  -- in both cases the answer to the train list request was sent no later
  obtain ⟨a, ha, hanswers, hnumber⟩ :
      ∃ a ∈ s.log, a.answers = some (i, Frame.getTrainListReq.call) ∧ a.number ≤ e.number := by
    rcases hown with hblock | htrain
    · have he : e ∈ s.log := by rw [hlog, hsplit]; simp
      obtain ⟨a, ha, hanswers, hlt⟩ := train_list_answered_first hr he hblock
      exact ⟨a, ha, hanswers, by omega⟩
    · exact htrain
  have hlist : a.message.isTrainList = true :=
    isTrainList_of_answers (hinv.fits a ha _ hanswers)
  refine ⟨a, ?_, hlist⟩
  have hsorted := hinv.sorted
  rw [hlog, hsplit] at ha hsorted
  simp only [List.append_assoc, List.cons_append, List.mem_append, List.mem_cons] at ha
  rcases ha with ha | ha | rfl | ha
  · -- before the page joined, nothing it asked for was answered
    have hnone := hold a ha
    simp [answerTo, hanswers, requestOf] at hnone
  · exact ha
  · rw [not_looksUpTrains_of_isTrainList hlist] at hlooks
    exact Bool.noConfusion hlooks
  · -- what stands behind `e` in the log has a larger number
    simp only [List.append_assoc, List.cons_append, List.pairwise_append, List.pairwise_cons]
      at hsorted
    have hlt := hsorted.2.1.2.1.1 a (List.mem_append.mpr ha)
    omega

/-- The first page to open, and the answers to its first two requests. -/
def firstPage : List (Action Nat) :=
  [.join 0, .onopen 0, .forward 0, .forward 0, .forward 0,
    .answer (.hardwareState "MANUEL"), .answer (.control (.trainList [[("id", .number "7")]])),
    .broadcast, .broadcast]

/-- The answer to its third one. -/
def firstBlockList : Message :=
  .control (.blockList [[("id", .number "1"), ("trainId", .number "7")]])

theorem train_list_handled_first_page :
    ∃ s c before e rest, (system ⟨fun _ => "", fun _ _ => true⟩).Reachable s
      ∧ s.clients 0 = some c ∧ c.handled = before ++ e :: rest
      ∧ ∃ t ∈ before, t.message.isTrainList = true := by
  have hrun : (system ⟨fun _ => "", fun _ _ => true⟩).run start
      (firstPage ++ [.answer firstBlockList, .broadcast, .handle 0, .handle 0, .handle 0])
        = some _ := rfl
  have hreach := System.Reachable.run (.init rfl) hrun
  refine ⟨_, _, [_, _], _, [], hreach, rfl, rfl, ?_⟩
  exact train_list_handled_first hreach (i := 0) rfl rfl rfl (Or.inl rfl)

/-- No page handles a message that looks up trains before a train list. -/
def TrainsFirst (s : Network ι) : Prop :=
  ∀ i c, s.clients i = some c → ∀ before e rest, c.handled = before ++ e :: rest →
    e.message.looksUpTrains = true → ∃ t ∈ before, t.message.isTrainList = true

/-- A transition between the two trips of a page that has just opened. -/
def transitionFirst : List (Action Nat) :=
  [.join 0,
    .report [("trainId", .number "7"), ("fromBlock", .number "1"), ("toBlock", .number "2")],
    .broadcast, .onopen 0, .handle 0]

/-- A second page opens between the answers to the first one. -/
def othersBlockListFirst : List (Action Nat) :=
  firstPage ++ [.join 1, .onopen 1, .answer firstBlockList, .broadcast, .handle 1]

/--
A transition, or the block list another page asked for, can be the first message a
page handles; looking up the train then ends in a `TypeError`.
-/
theorem lookup_before_train_list :
    ¬ (∀ s : Network Nat, (system ⟨fun _ => "", fun _ _ => true⟩).Reachable s → TrainsFirst s)
      ∧ (∃ s : Network Nat, (system ⟨fun _ => "", fun _ _ => true⟩).run start transitionFirst = some s
          ∧ ¬ TrainsFirst s)
      ∧ (∃ s : Network Nat,
          (system ⟨fun _ => "", fun _ _ => true⟩).run start othersBlockListFirst = some s
            ∧ ¬ TrainsFirst s)
      ∧ Script.thrown (onmessage firstBlockList.parsed) (Page.loaded ⟨fun _ => "", fun _ _ => true⟩)
          = some .typeError := by
  have hother : ∃ s : Network Nat,
      (system ⟨fun _ => "", fun _ _ => true⟩).run start othersBlockListFirst = some s
        ∧ ¬ TrainsFirst s := by
    refine ⟨_, rfl, ?_⟩
    intro h
    obtain ⟨t, ht, _⟩ := h 1 _ rfl [] _ [] rfl rfl
    exact absurd ht (by simp)
  refine ⟨?_, ⟨_, rfl, ?_⟩, hother, rfl⟩
  · intro h
    obtain ⟨s, hrun, hnot⟩ := hother
    exact hnot (h s (System.Reachable.run (.init rfl) hrun))
  · intro h
    obtain ⟨t, ht, _⟩ := h 0 _ rfl [] _ [] rfl rfl
    exact absurd ht (by simp)

end Network

end MobaDisplay
