import MobaDisplay.Network.Broadcast
import MobaDisplay.Proof.MsgThread

/-!
# What the pages hear of a broadcast

The texts in the queue of a connection are those that were handed to it, which are
those that were broadcast while it was in the set. The frames its socket has taken
are the first of the queue's. Together: a page hears what was broadcast to it, in
order, without loss and without repetition.
-/

namespace MobaDisplay

open Cxx Transition

namespace Outgoing

variable {ι : Type} [DecidableEq ι]

@[simp] theorem texts_append (fs gs : List WebSocket.Frame) :
    texts (fs ++ gs) = texts fs ++ texts gs := by
  simp [texts]

theorem texts_prefix {fs gs : List WebSocket.Frame} (h : fs <+: gs) : texts fs <+: texts gs := by
  obtain ⟨rest, rfl⟩ := h
  rw [texts_append]
  exact List.prefix_append _ _

theorem sent_sendTexts (q : OutQueue) (data : List Bytes) :
    (sendTexts q data).sent = q.sent ++ data.map fun d => outData (outFrame text d) := by
  induction data generalizing q with
  | nil => simp [sendTexts]
  | cons d data ih =>
      have hone : (q.sendMessage text d).sent = q.sent ++ [outData (outFrame text d)] :=
        SendQueue.Queue.send_sent q _
      have hmore := ih (q.sendMessage text d)
      rw [hone] at hmore
      rw [sendTexts, List.foldl_cons]
      simpa [sendTexts] using hmore

/-- Only `send` hands a text over. -/
theorem handed_step {s t : WebServer ι} {a : WebServer.Action ι}
    (h : WebServer.step s a = some t) (c : ι) : s.handed c <+: t.handed c := by
  cases WebServer.step_cases h with
  | send hio hlocals =>
      dsimp only
      split
      · rename_i hc
        rw [hc]
        exact List.prefix_append _ _
      · exact List.prefix_refl _
  | connectThrows hthread =>
      unfold WebServer.catchException
      split <;> exact List.prefix_refl _
  | receiveThrows hthread =>
      unfold WebServer.catchException
      split <;> exact List.prefix_refl _
  | _ => exact List.prefix_refl _

theorem handedOver_append {s t : WebServer ι} {a : WebServer.Action ι}
    (h : WebServer.step s a = some t) (c : ι) : s.handed c ++ handedOver s t c = t.handed c := by
  obtain ⟨rest, hrest⟩ := handed_step h c
  rw [handedOver, ← hrest, List.drop_left]

/-! ## The invariant -/

/-- The queues hold what was handed over, and answers. -/
structure Inv (s : Outgoing ι) : Prop where
  server : WebServer.system.Reachable s.server
  /-- Among the frames sent, the texts are those handed over. -/
  handed : ∀ c, texts (s.out c).sentFrames = s.server.handed c
  /-- Everything in a queue is a frame of the connection. -/
  framed : ∀ c, ∀ job ∈ (s.out c).sent, ∃ head message, job = outData (outFrame head message)

theorem inv_start : Inv (start : Outgoing ι) where
  server := .init rfl
  handed := fun _ => rfl
  framed := fun c job hjob => absurd hjob (by simp [start])

theorem inv_server {s : Outgoing ι} (h : Inv s) {a : WebServer.Action ι} {t : WebServer ι}
    (hstep : WebServer.step s.server a = some t) :
    Inv ⟨t, fun c => sendTexts (s.out c) (handedOver s.server t c)⟩ where
  server := h.server.tail hstep
  handed := by
    intro c
    have hnew : ∀ data : List Bytes,
        texts ((data.map fun d => outData (outFrame text d)).map fun job => job.callback)
          = data := by
      intro data
      induction data with
      | nil => rfl
      | cons d data ih =>
          rw [List.map_cons, List.map_cons, ← List.singleton_append, texts_append, ih]
          rfl
    have hold := h.handed c
    simp only [OutQueue.sentFrames] at hold ⊢
    -- the new frames of a queue are the new texts of its connection
    rw [sent_sendTexts, List.map_append, texts_append, hold, hnew, handedOver_append hstep]
  framed := by
    intro c job hjob
    rw [sent_sendTexts] at hjob
    rcases List.mem_append.mp hjob with hjob | hjob
    · exact h.framed c job hjob
    · obtain ⟨d, _, rfl⟩ := List.mem_map.mp hjob
      exact ⟨text, d, rfl⟩

/-- A queue that sends nothing, or an answer, keeps the invariant. -/
theorem inv_out {s t : Outgoing ι} (h : Inv s) {c : ι}
    {e : SendQueue.Event WebSocket.Frame ErrorCode} (hstep : s.outStep c e = some t)
    (htexts : texts (e.jobs.map fun job => job.callback) = [])
    (hframed : ∀ job ∈ e.jobs, ∃ head message, job = outData (outFrame head message)) : Inv t := by
  obtain ⟨q, hq, rfl⟩ := Option.map_eq_some_iff.mp hstep
  have hjobs := SendQueue.Queue.step_sent hq
  refine ⟨h.server, ?_, ?_⟩
  · intro d
    dsimp only
    split
    · rename_i hd
      subst hd
      rw [OutQueue.sentFrames, hjobs, List.map_append, texts_append, htexts, List.append_nil]
      exact h.handed d
    · exact h.handed d
  · intro d job hjob
    dsimp only at hjob
    split at hjob
    · rename_i hd
      subst hd
      rw [hjobs] at hjob
      rcases List.mem_append.mp hjob with hjob | hjob
      · exact h.framed d job hjob
      · exact hframed job hjob
    · exact h.framed d job hjob

/-- The event a step is for one queue. -/
theorem inv_step {s t : Outgoing ι} (h : Inv s) {a : Action ι} (hstep : step s a = some t) :
    Inv t := by
  cases a with
  | server a =>
      obtain ⟨u, hu, rfl⟩ := Option.map_eq_some_iff.mp hstep
      exact inv_server h hu
  | reply c head message =>
      simp only [step] at hstep
      split at hstep
      · exact absurd hstep (by simp)
      · rename_i hhead
        -- an answer is no text
        refine inv_out h hstep ?_ ?_
        · simp [SendQueue.Event.jobs, texts, outData, outFrame, hhead]
        · intro job hjob
          exact ⟨head, message, List.mem_singleton.mp hjob⟩
  | transfer c i n => exact inv_out h hstep rfl (by simp [SendQueue.Event.jobs])
  | complete c i => exact inv_out h hstep rfl (by simp [SendQueue.Event.jobs])
  | fail c i ec => exact inv_out h hstep rfl (by simp [SendQueue.Event.jobs])
  | halt c => exact inv_out h hstep rfl (by simp [SendQueue.Event.jobs])

/-- The sends of a broadcast fail nothing. -/
theorem sound_sendTexts {q : OutQueue} (h : q.Sound) (data : List Bytes) :
    (sendTexts q data).Sound := by
  induction data generalizing q with
  | nil => exact h
  | cons d data ih =>
      have hone : (q.sendMessage text d).Sound :=
        SendQueue.Queue.sound_step h (a := .send (outData (outFrame text d))) (by simp) rfl
      exact ih hone

theorem sound_outStep {s t : Outgoing ι} {c d : ι}
    {e : SendQueue.Event WebSocket.Frame ErrorCode} (h : (s.out d).Sound)
    (he : d = c → ∀ i ec, e ≠ .fail i ec) (hstep : s.outStep c e = some t) : (t.out d).Sound := by
  obtain ⟨q, hq, rfl⟩ := Option.map_eq_some_iff.mp hstep
  dsimp only
  split
  · rename_i hd
    rw [hd] at h
    exact SendQueue.Queue.sound_step h (he hd) hq
  · exact h

theorem sound_step {s t : Outgoing ι} {c : ι} {a : Action ι} (h : (s.out c).Sound)
    (ha : ∀ i ec, a ≠ .fail c i ec) (hstep : step s a = some t) : (t.out c).Sound := by
  cases a with
  | server a =>
      obtain ⟨u, hu, rfl⟩ := Option.map_eq_some_iff.mp hstep
      exact sound_sendTexts h _
  | reply d head message =>
      simp only [step] at hstep
      split at hstep
      · exact absurd hstep (by simp)
      · exact sound_outStep h (by simp) hstep
  | transfer d i n => exact sound_outStep h (by simp) hstep
  | complete d i => exact sound_outStep h (by simp) hstep
  | halt d => exact sound_outStep h (by simp) hstep
  | fail d i ec =>
      -- another connection may fail
      refine sound_outStep h ?_ hstep
      rintro rfl i' ec' _
      exact ha i ec rfl

theorem inv_run {as : List (Action ι)} {s : Outgoing ι} (hrun : system.run start as = some s)
    {c : ι} (hfail : ∀ i ec, .fail c i ec ∉ as) : Inv s ∧ (s.out c).Sound := by
  have hall := System.run_induction
    (P := fun as s => Inv s ∧ ((∀ i ec, .fail c i ec ∉ as) → (s.out c).Sound)) ?_ ?_ hrun
  · exact ⟨hall.1, hall.2 hfail⟩
  · exact ⟨inv_start, fun _ => SendQueue.Queue.sound_init⟩
  · intro before t a u _ ht hstep
    refine ⟨inv_step ht.1 hstep, ?_⟩
    intro hno
    have hbefore : ∀ i ec, .fail c i ec ∉ before :=
      fun i ec hmem => hno i ec (List.mem_append_left _ hmem)
    refine sound_step (ht.2 hbefore) ?_ hstep
    rintro i ec rfl
    exact hno i ec (by simp)

/-- What a connection has heard, where nothing it was sent has failed. -/
theorem Inv.heard {s : Outgoing ι} (hinv : Inv s) {c : ι} (hsound : (s.out c).Sound)
    (hsize : ∀ f ∈ (s.out c).sentFrames, f.payload.length < 2 ^ 64) :
    s.heard c <+: Hub.stretch c s.server.history
      ∧ ((s.out c).queue = [] →
        s.heard c ++ s.server.due c = Hub.stretch c s.server.history) := by
  have hframed : (s.out c).Framed := by
    intro job hjob
    obtain ⟨head, message, rfl⟩ := hinv.framed c job hjob
    exact ⟨head, message, rfl, hsize _ (List.mem_map.mpr ⟨_, hjob, rfl⟩)⟩
  obtain ⟨hwire, hall⟩ := hframed.frames_wire hsound
  have hstretch := (WebServer.deliveryInv_reachable hinv.server).handed c
  refine ⟨?_, ?_⟩
  · have htexts := texts_prefix hwire
    rw [hinv.handed c] at htexts
    exact htexts.trans ⟨s.server.due c, hstretch⟩
  · intro hqueue
    rw [Outgoing.heard, hall hqueue, hinv.handed c]
    exact hstretch

/--
**A page hears what was broadcast while its connection was in the set**, from the first
text on, each once and in order, whatever answers go out between them and however the
socket takes the bytes; as long as no write to it fails. Once its queue is empty it
has heard everything that was handed to it, which is all but a broadcast that has not
reached it.
-/
theorem broadcast_heard {as : List (Action ι)} {s : Outgoing ι}
    (hrun : system.run start as = some s) {c : ι} (hfail : ∀ i ec, .fail c i ec ∉ as)
    (hsize : ∀ f ∈ (s.out c).sentFrames, f.payload.length < 2 ^ 64) :
    s.heard c <+: Hub.stretch c s.server.history
      ∧ ((s.out c).queue = [] →
        s.heard c ++ s.server.due c = Hub.stretch c s.server.history) := by
  obtain ⟨hinv, hsound⟩ := inv_run hrun hfail
  exact hinv.heard hsound hsize

/-- One connection that joins between two messages, and the socket that takes the second. -/
def oneText : List (Action Nat) :=
  [.server (.connect none), .server (.receive [104, 105]), .server .post, .server (.begin []),
    .server .finish, .server (.connectionOpen 0), .reply 0 0x8a [7], .server .wake,
    .server (.receive [111, 107]), .server .post, .server (.begin [0]), .server .send,
    .transfer 0 0 3, .complete 0 0, .transfer 0 0 1, .transfer 0 0 3, .complete 0 0]

theorem broadcast_heard_one :
    ∃ s : Outgoing Nat, system.run start oneText = some s ∧ s.heard 0 = [[111, 107]]
      ∧ s.heard 0 ++ s.server.due 0 = Hub.stretch 0 s.server.history := by
  have hrun : system.run start oneText = some _ := rfl
  have hfail : ∀ i ec, .fail 0 i ec ∉ oneText := by simp [oneText]
  have hsize : ∀ f ∈ [outFrame 0x8a [7], outFrame text [111, 107]], f.payload.length < 2 ^ 64 := by
    simp [outFrame]
  exact ⟨_, hrun, by decide +kernel, (broadcast_heard hrun hfail hsize).2 rfl⟩

end Outgoing

end MobaDisplay
