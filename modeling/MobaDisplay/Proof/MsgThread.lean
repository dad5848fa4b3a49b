import MobaDisplay.Network.MsgThread
import Mathlib.Data.List.Perm.Basic

/-!
# Every message to every connection, once and in order

A posted task refers to the variables of the round that posted it, and the round
does not end before the task has run: the message thread waits for the promise that
the task sets as the last thing it does. So there is never more than one task, and
it always finds the variables as they were. From this, the texts handed to one
connection are those broadcast while it was in the set, and the texts broadcast are
those the message thread received.
-/

namespace MobaDisplay

open Cxx Transition

namespace WebServer

variable {ι : Type}

/-- The task the io thread is running. -/
def running (s : WebServer ι) : List Task :=
  match s.io with
  | .idle => []
  | .broadcasting task _ => [task]

/-- The tasks that have not finished: posted, or running. -/
def pending (s : WebServer ι) : List Task := s.queue ++ s.running

/-! ## One task at a time -/

/-- **The variables and the task**, by where the message thread is. -/
inductive Phase (s : WebServer ι) : Prop where
  /-- Outside a round there are neither. -/
  | outside (hthread : s.thread = .connecting ∨ s.thread = .sleeping) (hlocals : s.locals = none)
      (hpending : s.pending = [])
  | receiving {round : Nat} (hthread : s.thread = .receiving)
      (hlocals : s.locals = some ⟨round, none, false⟩) (hpending : s.pending = [])
  | received {round : Nat} {text : Bytes} (hthread : s.thread = .received)
      (hlocals : s.locals = some ⟨round, some text, false⟩) (hpending : s.pending = [])
  /-- The thread waits for the one task of its round. -/
  | posted {round : Nat} {text : Bytes} (hthread : s.thread = .waiting)
      (hlocals : s.locals = some ⟨round, some text, false⟩)
      (hpending : s.pending = [⟨round, text⟩])
  /-- The task has finished, and the thread has not noticed yet. -/
  | finished {round : Nat} {text : Bytes} (hthread : s.thread = .waiting)
      (hlocals : s.locals = some ⟨round, some text, true⟩) (hpending : s.pending = [])
  /-- An exception has ended the program. -/
  | ended (hterminated : s.terminated = true)
      (hthread : s.thread = .connecting ∨ s.thread = .receiving) (hpending : s.pending = [])

structure TaskInv (s : WebServer ι) : Prop where
  phase : Phase s
  defined : s.undefined = false

theorem taskInv_start : TaskInv (start : WebServer ι) :=
  ⟨.outside (Or.inl rfl) rfl rfl, rfl⟩

theorem queue_of_pending_nil {s : WebServer ι} (h : s.pending = []) :
    s.queue = [] ∧ s.running = [] := List.append_eq_nil_iff.mp h

/-- With an idle io thread, what is pending is in the queue. -/
theorem pending_of_idle {s : WebServer ι} (hio : s.io = .idle) : s.pending = s.queue := by
  unfold pending
  rw [running, hio, List.append_nil]

theorem pending_of_broadcasting {s : WebServer ι} {task : Task} {rest : List ι}
    (hio : s.io = .broadcasting task rest) : s.pending = s.queue ++ [task] := by
  unfold pending
  rw [running, hio]

/-- A task is pending only in the round that posted it. -/
theorem posted_of_pending {s : WebServer ι} (h : Phase s) {task : Task} (ht : task ∈ s.pending) :
    s.thread = .waiting ∧ s.locals = some ⟨task.round, some task.text, false⟩
      ∧ s.pending = [task] := by
  have hnil : s.pending ≠ [] := List.ne_nil_of_mem ht
  cases h with
  | outside _ _ hpending => exact absurd hpending hnil
  | receiving _ _ hpending => exact absurd hpending hnil
  | received _ _ hpending => exact absurd hpending hnil
  | finished _ _ hpending => exact absurd hpending hnil
  | ended _ _ hpending => exact absurd hpending hnil
  | posted hthread hlocals hpending =>
      rw [hpending, List.mem_singleton] at ht
      subst ht
      exact ⟨hthread, hlocals, hpending⟩

/-- A task at the head of the queue is the one that was posted, and the only one. -/
theorem posted_of_queued {s : WebServer ι} (h : Phase s) {task : Task} {queue : List Task}
    (hio : s.io = .idle) (hqueue : s.queue = task :: queue) :
    s.thread = .waiting ∧ s.locals = some ⟨task.round, some task.text, false⟩ ∧ queue = [] := by
  have hpending : s.pending = task :: queue := by rw [pending_of_idle hio, hqueue]
  have hmem : task ∈ s.pending := by rw [hpending]; simp
  obtain ⟨hthread, hlocals, hone⟩ := posted_of_pending h hmem
  rw [hpending] at hone
  exact ⟨hthread, hlocals, (List.cons.inj hone).2⟩

/-- So is one that is running. -/
theorem posted_of_broadcasting {s : WebServer ι} (h : Phase s) {task : Task} {rest : List ι}
    (hio : s.io = .broadcasting task rest) :
    s.thread = .waiting ∧ s.locals = some ⟨task.round, some task.text, false⟩ ∧ s.queue = [] := by
  have hmem : task ∈ s.pending := by rw [pending_of_broadcasting hio]; simp
  obtain ⟨hthread, hlocals, hone⟩ := posted_of_pending h hmem
  rw [pending_of_broadcasting hio] at hone
  exact ⟨hthread, hlocals, by simpa using hone⟩

/-- What the phase depends on. -/
theorem phase_congr {s t : WebServer ι} (h : Phase s) (hthread : t.thread = s.thread)
    (hlocals : t.locals = s.locals) (hpending : t.pending = s.pending)
    (hterminated : t.terminated = s.terminated) : Phase t := by
  cases h with
  | outside h1 h2 h3 => exact .outside (by rwa [hthread]) (by rwa [hlocals]) (by rwa [hpending])
  | receiving h1 h2 h3 => exact .receiving (by rwa [hthread]) (by rwa [hlocals]) (by rwa [hpending])
  | received h1 h2 h3 => exact .received (by rwa [hthread]) (by rwa [hlocals]) (by rwa [hpending])
  | posted h1 h2 h3 => exact .posted (by rwa [hthread]) (by rwa [hlocals]) (by rwa [hpending])
  | finished h1 h2 h3 => exact .finished (by rwa [hthread]) (by rwa [hlocals]) (by rwa [hpending])
  | ended h1 h2 h3 => exact .ended (by rwa [hterminated]) (by rwa [hthread]) (by rwa [hpending])

/-- A round begins only where nothing is pending. -/
theorem phase_beginRound {s : WebServer ι} (h : s.pending = []) : Phase s.beginRound :=
  have hlocals : s.beginRound.locals = some ⟨s.rounds, none, false⟩ := rfl
  .receiving rfl hlocals h

theorem taskInv_catchException {s : WebServer ι} (h : s.pending = [])
    (hthread : s.thread = .connecting ∨ s.thread = .receiving) (hdef : s.undefined = false)
    (e : Thrown) : TaskInv (s.catchException e) := by
  cases e with
  | std e => exact ⟨.outside (Or.inr rfl) rfl h, hdef⟩
  | foreign => exact ⟨.ended rfl hthread h, hdef⟩

/-- In `connect` and in `waitForNewMsgAsString` nothing is pending. -/
theorem pending_nil {s : WebServer ι} (h : Phase s) (hthread : s.thread ≠ .waiting) :
    s.pending = [] := by
  cases h with
  | outside _ _ hpending => exact hpending
  | receiving _ _ hpending => exact hpending
  | received _ _ hpending => exact hpending
  | posted hwaiting _ _ => exact absurd hwaiting hthread
  | finished hwaiting _ _ => exact absurd hwaiting hthread
  | ended _ _ hpending => exact hpending

/-- The variables and the pending tasks there are, by where the message thread is. -/
def Held : ThreadState → Option Locals → List Task → Prop
  | .connecting, locals, tasks => locals = none ∧ tasks = []
  | .sleeping, locals, tasks => locals = none ∧ tasks = []
  | .receiving, locals, tasks => (∃ round, locals = some ⟨round, none, false⟩) ∧ tasks = []
  | .received, locals, tasks =>
      (∃ round text, locals = some ⟨round, some text, false⟩) ∧ tasks = []
  | .waiting, locals, tasks => ∃ round text,
      (locals = some ⟨round, some text, false⟩ ∧ tasks = [⟨round, text⟩])
        ∨ (locals = some ⟨round, some text, true⟩ ∧ tasks = [])

/-- As long as the program runs, the state of the thread says the rest. -/
theorem held_of_phase {s : WebServer ι} (h : Phase s) (halive : s.terminated = false) :
    Held s.thread s.locals s.pending := by
  cases h with
  | outside hthread hlocals hpending =>
      rcases hthread with hthread | hthread
      · rw [hthread]
        exact ⟨hlocals, hpending⟩
      · rw [hthread]
        exact ⟨hlocals, hpending⟩
  | receiving hthread hlocals hpending =>
      rw [hthread]
      exact ⟨⟨_, hlocals⟩, hpending⟩
  | received hthread hlocals hpending =>
      rw [hthread]
      exact ⟨⟨_, _, hlocals⟩, hpending⟩
  | posted hthread hlocals hpending =>
      rw [hthread]
      exact ⟨_, _, Or.inl ⟨hlocals, hpending⟩⟩
  | finished hthread hlocals hpending =>
      rw [hthread]
      exact ⟨_, _, Or.inr ⟨hlocals, hpending⟩⟩
  | ended hterminated _ _ =>
      rw [halive] at hterminated
      exact Bool.noConfusion hterminated

/-! ## Texts that are not broadcast yet -/

/-- The text received in this round, before its task is posted. -/
def unposted (s : WebServer ι) : List Bytes :=
  match s.thread, s.locals with
  | .received, some ⟨_, some text, _⟩ => [text]
  | _, _ => []

/-- The texts received whose broadcast has not begun. -/
def unsent (s : WebServer ι) : List Bytes := s.queue.map Task.text ++ s.unposted

/-- Only between `waitForNewMsgAsString` and `post` a text is received and not posted. -/
theorem unposted_eq_nil {s : WebServer ι} (h : s.thread ≠ .received) : s.unposted = [] := by
  unfold unposted
  split
  · rename_i hthread _
    exact absurd hthread h
  · rfl

/-- Outside that, only the queue counts. -/
theorem unsent_congr {s t : WebServer ι} (hs : s.thread ≠ .received) (ht : t.thread ≠ .received)
    (hqueue : t.queue = s.queue) : t.unsent = s.unsent := by
  unfold unsent
  rw [hqueue, unposted_eq_nil hs, unposted_eq_nil ht]

/-- There is never more than one text whose broadcast has not begun. -/
theorem unsent_length {s : WebServer ι} (h : Phase s) : s.unsent.length ≤ 1 := by
  unfold unsent
  cases h with
  | outside hthread _ hpending =>
      rw [(queue_of_pending_nil hpending).1, unposted_eq_nil]
      · simp
      · rcases hthread with h | h <;> simp [h]
  | receiving hthread _ hpending =>
      rw [(queue_of_pending_nil hpending).1, unposted_eq_nil (by simp [hthread])]
      simp
  | received hthread hlocals hpending =>
      rw [(queue_of_pending_nil hpending).1, unposted, hthread, hlocals]
      simp
  | posted hthread _ hpending =>
      rw [unposted_eq_nil (by simp [hthread]), List.append_nil, List.length_map]
      have hlen := congrArg List.length hpending
      simp only [pending, List.length_append, List.length_singleton] at hlen
      omega
  | finished hthread _ hpending =>
      rw [(queue_of_pending_nil hpending).1, unposted_eq_nil (by simp [hthread])]
      simp
  | ended _ hthread hpending =>
      rw [(queue_of_pending_nil hpending).1, unposted_eq_nil]
      · simp
      · rcases hthread with h | h <;> simp [h]

/-- While a task is pending the message thread can do nothing. -/
theorem blocked_of_pending {s : WebServer ι} (h : Phase s) {task : Task} (ht : task ∈ s.pending)
    (a : Action ι) : threadStep s a = none := by
  obtain ⟨hthread, hlocals, _⟩ := posted_of_pending h ht
  cases a with
  | _ => simp [threadStep, hthread, hlocals]

/-! ## Steps -/

variable [DecidableEq ι]

theorem running_of_step {s s' : WebServer ι} {a : Action ι} (h : step s a = some s') :
    s.terminated = false := by
  unfold step at h
  split at h
  · exact absurd h (by simp)
  · rename_i hnot
    rw [not_or] at hnot
    simpa using hnot.2

/-- Every step keeps the task and the variables it refers to together. -/
theorem taskInv_step {s s' : WebServer ι} {a : Action ι} (h : TaskInv s)
    (hs : step s a = some s') : TaskInv s' := by
  obtain ⟨hphase, hdef⟩ := h
  have hheld := held_of_phase hphase (running_of_step hs)
  cases step_cases hs with
  | connect hthread =>
      rw [hthread] at hheld
      obtain ⟨_, hpending⟩ := hheld
      exact ⟨phase_beginRound hpending, hdef⟩
  | connectThrows hthread =>
      rw [hthread] at hheld
      obtain ⟨_, hpending⟩ := hheld
      exact taskInv_catchException hpending (Or.inl hthread) hdef _
  | @receive data v hthread hlocals =>
      rw [hthread] at hheld
      obtain ⟨⟨round, hround⟩, hpending⟩ := hheld
      obtain rfl := Option.some.inj (hlocals.symm.trans hround)
      exact ⟨.received rfl rfl hpending, hdef⟩
  | receiveThrows hthread =>
      rw [hthread] at hheld
      obtain ⟨_, hpending⟩ := hheld
      exact taskInv_catchException hpending (Or.inr hthread) hdef _
  | @post round text set hthread hlocals =>
      rw [hthread] at hheld
      obtain ⟨⟨round', text', hround⟩, hpending⟩ := hheld
      obtain ⟨hqueue, hrunning⟩ := queue_of_pending_nil hpending
      obtain rfl : set = false :=
        (Locals.mk.inj (Option.some.inj (hlocals.symm.trans hround))).2.2
      have hposted : (s.queue ++ [⟨round, text⟩]) ++ s.running = [⟨round, text⟩] := by
        rw [hqueue, hrunning]
        rfl
      exact ⟨.posted rfl hlocals hposted, hdef⟩
  | @wake round data hthread hlocals =>
      rw [hthread] at hheld
      obtain ⟨round', text, hwaiting⟩ := hheld
      rcases hwaiting with ⟨hround, _⟩ | ⟨_, hpending⟩
      · -- the promise is set, so the task has run
        rw [hlocals] at hround
        simp at hround
      · exact ⟨phase_beginRound hpending, hdef⟩
  | retry hthread =>
      rw [hthread] at hheld
      obtain ⟨hlocals, hpending⟩ := hheld
      exact ⟨.outside (Or.inl rfl) hlocals hpending, hdef⟩
  | @begin order task queue hio hqueue horder =>
      obtain ⟨hthread, hlocals, rfl⟩ := posted_of_queued hphase hio hqueue
      exact ⟨.posted hthread hlocals rfl, hdef⟩
  | @send task c rest round text set hio hlocals =>
      obtain ⟨hthread, hround, hqueue⟩ := posted_of_broadcasting hphase hio
      have hone : s.queue ++ [task] = [task] := by rw [hqueue, List.nil_append]
      exact ⟨.posted hthread hround hone, hdef⟩
  | @sendUndefined task c rest hio hlocals =>
      exact absurd (posted_of_broadcasting hphase hio).2.1 (hlocals _ _ _)
  | @finish task v hio hlocals =>
      obtain ⟨hthread, hround, hqueue⟩ := posted_of_broadcasting hphase hio
      obtain rfl := Option.some.inj (hlocals.symm.trans hround)
      refine ⟨.finished hthread rfl ?_, hdef⟩
      show s.queue ++ [] = []
      rw [hqueue, List.append_nil]
  | @finishUndefined task hio hlocals =>
      exact absurd (hlocals.symm.trans (posted_of_broadcasting hphase hio).2.1) (by simp)
  | connectionOpen hio hnew => exact ⟨phase_congr hphase rfl rfl rfl rfl, hdef⟩
  | connectionClose hio hc => exact ⟨phase_congr hphase rfl rfl rfl rfl, hdef⟩

theorem taskInv_reachable {s : WebServer ι} (hr : system.Reachable s) : TaskInv s :=
  hr.invariant (P := TaskInv) (fun _ h0 => start_of_init h0 ▸ taskInv_start)
    (fun _ _ _ _ h hs => taskInv_step h hs)

/-! ## What is handed to the connections -/

/-- The text of the running broadcast, for a connection it has not reached yet. -/
def due (c : ι) (s : WebServer ι) : List Bytes :=
  match s.io with
  | .idle => []
  | .broadcasting task rest => if c ∈ rest then [task.text] else []

/-- **The invariant of the broadcasts.** -/
structure DeliveryInv (s : WebServer ι) : Prop where
  /-- What was broadcast, and what is about to be, is what was received. -/
  returned : s.returned = Hub.sends s.history ++ s.unsent
  /-- A connection has its stretch, but for a broadcast that has not reached it. -/
  handed : ∀ c, s.handed c ++ s.due c = Hub.stretch c s.history
  /-- The set holds those inside, once each. -/
  inside : ∀ c, c ∈ s.connections ↔ Hub.inside c s.history = true
  nodup : s.connections.Nodup
  /-- A broadcast reaches no connection twice. -/
  once : ∀ task rest, s.io = .broadcasting task rest → rest.Nodup

theorem deliveryInv_start : DeliveryInv (start : WebServer ι) where
  returned := rfl
  handed := fun _ => rfl
  inside := fun c => by simp [start, Hub.inside, Hub.joined]
  nodup := List.nodup_nil
  once := fun task rest h => absurd h (by simp [start])

/-- A step of the message thread, which leaves connections and broadcasts alone. -/
theorem deliveryInv_thread {s t : WebServer ι} (h : DeliveryInv s)
    (hreturned : t.returned = Hub.sends s.history ++ t.unsent) (hhistory : t.history = s.history)
    (hhanded : t.handed = s.handed) (hio : t.io = s.io)
    (hconnections : t.connections = s.connections) : DeliveryInv t where
  returned := by rw [hreturned, hhistory]
  handed := fun c => by
    have hdue : t.due c = s.due c := by rw [due, due, hio]
    rw [hhanded, hdue, hhistory]
    exact h.handed c
  inside := fun c => by rw [hconnections, hhistory]; exact h.inside c
  nodup := by rw [hconnections]; exact h.nodup
  once := by rw [hio]; exact h.once

/-- One that neither receives a text nor posts one. -/
theorem deliveryInv_quiet {s t : WebServer ι} (h : DeliveryInv s) (hs : s.thread ≠ .received)
    (ht : t.thread ≠ .received) (hqueue : t.queue = s.queue) (hreturned : t.returned = s.returned)
    (hhistory : t.history = s.history) (hhanded : t.handed = s.handed) (hio : t.io = s.io)
    (hconnections : t.connections = s.connections) : DeliveryInv t := by
  have hunsent : t.unsent = s.unsent := unsent_congr hs ht hqueue
  refine deliveryInv_thread h ?_ hhistory hhanded hio hconnections
  rw [hreturned, hunsent]
  exact h.returned

theorem deliveryInv_catchException {s : WebServer ι} (h : DeliveryInv s)
    (hthread : s.thread ≠ .received) (e : Thrown) : DeliveryInv (s.catchException e) := by
  cases e with
  | std e =>
      have hafter : (s.catchException (.std e)).thread ≠ .received := by simp [catchException]
      exact deliveryInv_quiet h hthread hafter rfl rfl rfl rfl rfl rfl
  | foreign => exact deliveryInv_quiet h hthread hthread rfl rfl rfl rfl rfl rfl

theorem deliveryInv_beginRound {s : WebServer ι} (h : DeliveryInv s)
    (hthread : s.thread ≠ .received) : DeliveryInv s.beginRound := by
  have hafter : s.beginRound.thread ≠ .received := by simp [beginRound]
  exact deliveryInv_quiet h hthread hafter rfl rfl rfl rfl rfl rfl

/-- A broadcast begins: it is due to everyone in the set. -/
theorem deliveryInv_begin {s : WebServer ι} (h : DeliveryInv s) (hinv : TaskInv s)
    {order : List ι} {task : Task} {queue : List Task} (hio : s.io = .idle)
    (hqueue : s.queue = task :: queue) (horder : order.Perm s.connections) :
    DeliveryInv { s with
      io := .broadcasting task order
      queue := queue
      history := s.history ++ [.send task.text] } := by
  have hthread := (posted_of_queued hinv.phase hio hqueue).1
  refine ⟨?_, ?_, ?_, h.nodup, ?_⟩
  · have hbefore := h.returned
    have hnone : s.unposted = [] := unposted_eq_nil (by simp [hthread])
    simp only [unsent, hqueue, hnone] at hbefore
    simp [Hub.sends_append, Hub.sends, unsent, unposted, hthread, hbefore]
  · intro c
    -- the broadcast is due to exactly those inside
    have hbefore := h.handed c
    unfold due at hbefore
    rw [hio, List.append_nil] at hbefore
    simp only [Hub.stretch_snoc, Hub.sends, ← hbefore, due, horder.mem_iff, h.inside c]
  · intro c
    rw [Hub.inside_send]
    exact h.inside c
  · intro t rest heq
    obtain ⟨_, rfl⟩ := IoState.broadcasting.inj heq
    exact horder.nodup_iff.mpr h.nodup

/-- The text is handed to one connection, which it is no longer due to. -/
theorem deliveryInv_send {s : WebServer ι} (h : DeliveryInv s) (hinv : TaskInv s)
    {task : Task} {c : ι} {rest : List ι} {round : Nat} {text : Bytes} {set : Bool}
    (hio : s.io = .broadcasting task (c :: rest))
    (hlocals : s.locals = some ⟨round, some text, set⟩) :
    DeliveryInv { s with
      io := .broadcasting task rest
      handed := fun d => if d = c then s.handed c ++ [text] else s.handed d } := by
  have hround := (posted_of_broadcasting hinv.phase hio).2.1
  have htext : text = task.text := by
    have hdata := (Locals.mk.inj (Option.some.inj (hlocals.symm.trans hround))).2.1
    exact Option.some.inj hdata
  have hnodup := List.nodup_cons.mp (h.once task (c :: rest) hio)
  refine ⟨h.returned, ?_, h.inside, h.nodup, ?_⟩
  · intro d
    have hbefore := h.handed d
    unfold due at hbefore
    rw [hio] at hbefore
    by_cases hd : d = c
    · subst hd
      simp only [List.mem_cons, true_or, if_true] at hbefore
      simp [due, hnodup.1, htext, hbefore]
    · simp only [List.mem_cons, hd, false_or] at hbefore
      simp [due, hd, hbefore]
  · intro t r heq
    obtain ⟨_, rfl⟩ := IoState.broadcasting.inj heq
    exact hnodup.2

/-- The set changes, and nothing is sent. -/
theorem deliveryInv_connections {s : WebServer ι} (h : DeliveryInv s) {e : Hub.Event ι Bytes}
    {connections : List ι} (hquiet : Hub.sends [e] = [])
    (hinside : ∀ c, c ∈ connections ↔ Hub.inside c (s.history ++ [e]) = true)
    (hnodup : connections.Nodup) :
    DeliveryInv { s with connections := connections, history := s.history ++ [e] } := by
  refine ⟨?_, ?_, hinside, hnodup, h.once⟩
  · simp only [Hub.sends_append, hquiet, List.append_nil]
    exact h.returned
  · intro c
    simp only [Hub.stretch_snoc, hquiet, ite_self, List.append_nil]
    exact h.handed c

theorem deliveryInv_connectionOpen {s : WebServer ι} (h : DeliveryInv s) {c : ι}
    (hnew : Hub.joined c s.history = false) :
    DeliveryInv { s with
      connections := s.connections ++ [c], history := s.history ++ [.join c] } := by
  have hout : c ∉ s.connections := by
    rw [h.inside c, Hub.inside_of_not_joined hnew]
    exact Bool.false_ne_true
  refine deliveryInv_connections h rfl ?_ ?_
  · intro d
    rw [Hub.inside_join, List.mem_append, List.mem_singleton, Bool.or_eq_true, ← h.inside d]
    by_cases hd : d = c
    · subst hd
      simp [hnew]
    · simp [hd, Ne.symm hd]
  · exact List.nodup_append.mpr ⟨h.nodup, List.nodup_singleton c, fun a ha b hb heq =>
      hout ((List.mem_singleton.mp hb) ▸ heq ▸ ha)⟩

theorem deliveryInv_connectionClose {s : WebServer ι} (h : DeliveryInv s) (c : ι) :
    DeliveryInv { s with
      connections := s.connections.erase c, history := s.history ++ [.leave c] } := by
  refine deliveryInv_connections h rfl ?_ (h.nodup.erase c)
  intro d
  rw [Hub.inside_leave, h.nodup.mem_erase_iff, h.inside d]
  by_cases hd : d = c
  · subst hd
    simp
  · simp [hd, Ne.symm hd]

theorem deliveryInv_step {s s' : WebServer ι} {a : Action ι} (h : DeliveryInv s)
    (hinv : TaskInv s) (hs : step s a = some s') : DeliveryInv s' := by
  cases step_cases hs with
  | connect hthread => exact deliveryInv_beginRound h (by simp [hthread])
  | @connectThrows e hthread => exact deliveryInv_catchException h (by simp [hthread]) e
  | @receive data v hthread hlocals =>
      refine deliveryInv_thread h ?_ rfl rfl rfl rfl
      -- nothing was pending, so this text is the only one that is not broadcast
      have hpending := pending_nil hinv.phase (by simp [hthread])
      have hqueue := (queue_of_pending_nil hpending).1
      have hbefore := h.returned
      rw [unsent, hqueue, unposted_eq_nil (by simp [hthread]), List.map_nil,
        List.append_nil, List.append_nil] at hbefore
      simp [unsent, unposted, hqueue, hbefore]
  | @receiveThrows e hthread => exact deliveryInv_catchException h (by simp [hthread]) e
  | @post round text set hthread hlocals =>
      refine deliveryInv_thread h ?_ rfl rfl rfl rfl
      rw [h.returned]
      simp [unsent, unposted, hthread, hlocals]
  | @wake round data hthread hlocals => exact deliveryInv_beginRound h (by simp [hthread])
  | retry hthread =>
      exact deliveryInv_quiet h (by simp [hthread]) (by simp) rfl rfl rfl rfl rfl rfl
  | begin hio hqueue horder => exact deliveryInv_begin h hinv hio hqueue horder
  | send hio hlocals => exact deliveryInv_send h hinv hio hlocals
  | sendUndefined hio hlocals =>
      exact ⟨h.returned, h.handed, h.inside, h.nodup, h.once⟩
  | @finish task v hio hlocals =>
      have hthread := (posted_of_broadcasting hinv.phase hio).1
      refine ⟨?_, ?_, h.inside, h.nodup, fun t rest heq => absurd heq (by simp)⟩
      · have hunsent : ({ s with
            io := .idle, locals := some { v with promise := true } } : WebServer ι).unsent
              = s.unsent := unsent_congr (by simp [hthread]) (by simp [hthread]) rfl
        rw [hunsent]
        exact h.returned
      · intro c
        have hbefore := h.handed c
        unfold due at hbefore
        rw [hio] at hbefore
        simpa [due] using hbefore
  | finishUndefined hio hlocals =>
      exact ⟨h.returned, h.handed, h.inside, h.nodup, h.once⟩
  | connectionOpen hio hnew => exact deliveryInv_connectionOpen h hnew
  | connectionClose hio hc => exact deliveryInv_connectionClose h _

theorem deliveryInv_reachable {s : WebServer ι} (hr : system.Reachable s) : DeliveryInv s :=
  hr.invariant (P := DeliveryInv) (fun _ h0 => start_of_init h0 ▸ deliveryInv_start)
    (fun _ _ _ hreach h hs => deliveryInv_step h (taskInv_reachable hreach) hs)

/-! ## The broadcast -/

/--
**Broadcast without loss, duplication or reordering**, in every reachable state.

No variable is used after its lifetime. At most one task is pending; while it is,
the message thread is blocked in the round that posted it, with the text it was
posted for. What was handed to a connection, with the text of a running broadcast
that has not reached it, is what was broadcast between its insertion and its
removal; it is contiguous in what `waitForNewMsgAsString` returned, of which at
most the last text has not been broadcast.
-/
theorem broadcast_exact {s : WebServer ι} (hr : system.Reachable s) :
    s.undefined = false ∧ s.pending.length ≤ 1
      ∧ (∀ task ∈ s.pending, s.thread = .waiting
          ∧ s.locals = some ⟨task.round, some task.text, false⟩
          ∧ ∀ a, threadStep s a = none)
      ∧ (∀ c, s.handed c ++ s.due c = Hub.stretch c s.history ∧ s.handed c <:+: s.returned)
      ∧ ∃ rest, s.returned = Hub.sends s.history ++ rest ∧ rest.length ≤ 1 := by
  obtain ⟨hphase, hdef⟩ := taskInv_reachable hr
  have hinv := deliveryInv_reachable hr
  refine ⟨hdef, ?_, ?_, ?_, s.unsent, hinv.returned, unsent_length hphase⟩
  · cases hpending : s.pending with
    | nil => simp
    | cons task tasks =>
        have hmem : task ∈ s.pending := by rw [hpending]; simp
        have hone := (posted_of_pending hphase hmem).2.2
        rw [hpending] at hone
        rw [hone]
        simp
  · intro task ht
    obtain ⟨hthread, hlocals, _⟩ := posted_of_pending hphase ht
    exact ⟨hthread, hlocals, blocked_of_pending hphase ht⟩
  · intro c
    refine ⟨hinv.handed c, ?_⟩
    have hbegun : s.handed c <+: Hub.stretch c s.history := ⟨s.due c, hinv.handed c⟩
    have hstretch : Hub.stretch c s.history <:+: s.returned := by
      rw [hinv.returned]
      exact (Hub.stretch_infix c s.history).trans (List.prefix_append _ _).isInfix
    exact hbegun.isInfix.trans hstretch

/-- One connection that joins between two messages, and the first of the two. -/
def oneConnection : List (Action Nat) :=
  [.connect none, .receive [104, 105], .post, .begin [], .finish, .connectionOpen 0, .wake,
    .receive [111, 107], .post, .begin [0], .send]

theorem broadcast_exact_one :
    ∃ s : WebServer Nat, system.run start oneConnection = some s ∧ s.handed 0 = [[111, 107]]
      ∧ s.handed 0 <:+: s.returned ∧ s.pending.length ≤ 1 := by
  have hrun : system.run start oneConnection = some _ := rfl
  have hall := broadcast_exact (System.Reachable.run (.init rfl) hrun)
  exact ⟨_, hrun, rfl, (hall.2.2.2.1 0).2, hall.2.1⟩

end WebServer

end MobaDisplay
