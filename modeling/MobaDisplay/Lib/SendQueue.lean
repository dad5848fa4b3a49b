import MobaDisplay.Lib.CxxString
import MobaDisplay.Lib.Transition

/-!
# A queue of writes to a socket

Code that may be asked to send while a write is still under way keeps what it has to
send in a queue. The first entry is being written; when its write has completed, the
entry is taken off, the next write starts, and the caller is told. When a write
fails, everyone in the queue is told and the queue is emptied. Once the owner has been
stopped, the handlers of the writes do nothing any more.

How much of a write the socket takes at a time, when a write completes and when it
fails is up to the environment. That only one write is under way, which is why the
bytes of two entries never mix, is not built in: the state has a list of writes, and
`Settled` is what holds in every reachable state.
-/

namespace SendQueue

open Cxx (Bytes)
open Transition

/-- What is to be sent, and who is told about it. -/
structure Job (κ : Type) where
  bytes : Bytes
  callback : κ
  deriving DecidableEq

structure Queue (κ ε : Type) where
  queue : List (Job κ) := []
  /-- What each write under way has not written yet. -/
  writes : List Bytes := []
  /-- What the socket has taken. -/
  wire : Bytes := []
  /-- Who was told, and of which error. -/
  called : List (κ × Option ε) := []
  /-- Everything that was ever to be sent. -/
  sent : List (Job κ) := []
  halted : Bool := false
  /-- The front of an empty queue was used. -/
  undefined : Bool := false
  deriving DecidableEq

inductive Event (κ ε : Type) where
  | send (job : Job κ)
  /-- The socket takes `n` bytes of the `i`-th write. -/
  | transfer (i n : Nat)
  /-- The `i`-th write has written everything. -/
  | complete (i : Nat)
  | fail (i : Nat) (e : ε)
  /-- The owner is stopped. -/
  | halt

/-- What an event adds to what was ever to be sent. -/
def Event.jobs {κ ε : Type} : Event κ ε → List (Job κ)
  | .send job => [job]
  | _ => []

namespace Queue

variable {κ ε : Type}

/-- Start a write of the first entry. -/
def sendFromQueue (q : Queue κ ε) : Queue κ ε :=
  match q.queue with
  | [] => { q with undefined := true }
  | job :: _ => { q with writes := q.writes ++ [job.bytes] }

def send (q : Queue κ ε) (job : Job κ) : Queue κ ε :=
  let q := { q with queue := q.queue ++ [job], sent := q.sent ++ [job] }
  if q.queue.length = 1 then q.sendFromQueue else q

/-- The handler of a write that has completed. -/
def completed (q : Queue κ ε) : Queue κ ε :=
  match q.queue with
  | [] => { q with undefined := true }
  | job :: rest =>
      let q := { q with queue := rest, called := q.called ++ [(job.callback, none)] }
      if rest.length > 0 then q.sendFromQueue else q

/-- The handler of a write that has failed. -/
def failed (q : Queue κ ε) (e : ε) : Queue κ ε :=
  { q with queue := [], called := q.called ++ q.queue.map fun job => (job.callback, some e) }

def step (q : Queue κ ε) : Event κ ε → Option (Queue κ ε)
  | .send job => some (q.send job)
  | .transfer i n =>
      match q.writes[i]? with
      | none => none
      | some left =>
          if n ≤ left.length then
            some { q with
              writes := q.writes.set i (left.drop n)
              wire := q.wire ++ left.take n }
          else none
  | .complete i =>
      match q.writes[i]? with
      | some [] =>
          let q := { q with writes := q.writes.eraseIdx i }
          some (if q.halted then q else q.completed)
      | _ => none
  | .fail i e =>
      match q.writes[i]? with
      | some _ =>
          let q := { q with writes := q.writes.eraseIdx i }
          some (if q.halted then q else q.failed e)
      | none => none
  | .halt => some { q with halted := true }

def system : System (Queue κ ε) (Event κ ε) where
  init := fun q => q = {}
  step := step

theorem sendFromQueue_sent (q : Queue κ ε) : q.sendFromQueue.sent = q.sent := by
  unfold sendFromQueue
  split <;> rfl

theorem send_sent (q : Queue κ ε) (job : Job κ) : (q.send job).sent = q.sent ++ [job] := by
  unfold send
  dsimp only
  split
  · rw [sendFromQueue_sent]
  · rfl

theorem completed_sent (q : Queue κ ε) : q.completed.sent = q.sent := by
  unfold completed
  split
  · rfl
  · dsimp only
    split
    · rw [sendFromQueue_sent]
    · rfl

/-- Only `send` sends. -/
theorem step_sent {q q' : Queue κ ε} {a : Event κ ε} (h : step q a = some q') :
    q'.sent = q.sent ++ Event.jobs a := by
  cases a with
  | send job =>
      obtain rfl := Option.some.inj h
      exact send_sent q job
  | transfer i n =>
      simp only [step] at h
      split at h
      · exact absurd h (by simp)
      · split at h
        · obtain rfl := Option.some.inj h
          simp [Event.jobs]
        · exact absurd h (by simp)
  | complete i =>
      simp only [step] at h
      split at h
      · obtain rfl := Option.some.inj h
        split
        · simp [Event.jobs]
        · simp [Event.jobs, completed_sent]
      · exact absurd h (by simp)
  | fail i e =>
      simp only [step] at h
      split at h
      · obtain rfl := Option.some.inj h
        split <;> simp [Event.jobs, failed]
      · exact absurd h (by simp)
  | halt =>
      obtain rfl := Option.some.inj h
      simp [Event.jobs]

theorem sendFromQueue_wire (q : Queue κ ε) : q.sendFromQueue.wire = q.wire := by
  unfold sendFromQueue
  split <;> rfl

theorem send_wire (q : Queue κ ε) (job : Job κ) : (q.send job).wire = q.wire := by
  unfold send
  dsimp only
  split
  · rw [sendFromQueue_wire]
  · rfl

theorem completed_wire (q : Queue κ ε) : q.completed.wire = q.wire := by
  unfold completed
  split
  · rfl
  · dsimp only
    split
    · rw [sendFromQueue_wire]
    · rfl

/-- What the socket has taken, it keeps. -/
theorem step_wire {q q' : Queue κ ε} {a : Event κ ε} (h : step q a = some q') :
    q.wire <+: q'.wire := by
  cases a with
  | send job =>
      obtain rfl := Option.some.inj h
      rw [send_wire]
  | transfer i n =>
      simp only [step] at h
      split at h
      · exact absurd h (by simp)
      · split at h
        · obtain rfl := Option.some.inj h
          exact List.prefix_append _ _
        · exact absurd h (by simp)
  | complete i =>
      simp only [step] at h
      split at h
      · obtain rfl := Option.some.inj h
        split
        · exact List.prefix_refl _
        · rw [completed_wire]
      · exact absurd h (by simp)
  | fail i e =>
      simp only [step] at h
      split at h
      · obtain rfl := Option.some.inj h
        split <;> exact List.prefix_refl _
      · exact absurd h (by simp)
  | halt =>
      obtain rfl := Option.some.inj h
      exact List.prefix_refl _

/-! ## The invariant -/

/-- A job that someone was told about: how much of it was taken, and what was told. -/
structure Outcome (κ ε : Type) where
  job : Job κ
  taken : Bytes
  error : Option ε

/-- A beginning of the job was taken; if no error was told, the whole of it. -/
def Outcome.Fair (o : Outcome κ ε) : Prop :=
  o.taken <+: o.job.bytes ∧ (o.error = none → o.taken = o.job.bytes)

/-- What the writes under way have to do with the queue. -/
inductive Writing (q : Queue κ ε) (settled : Bytes) : Prop where
  | idle (hqueue : q.queue = []) (hwrites : q.writes = []) (hwire : q.wire = settled)
  | first (job : Job κ) (rest : List (Job κ)) (taken left : Bytes) (hqueue : q.queue = job :: rest)
      (hwrites : q.writes = [left] ∨ (q.writes = [] ∧ q.halted = true))
      (hbytes : job.bytes = taken ++ left) (hwire : q.wire = settled ++ taken)

/--
Everything ever sent is settled or in the queue, in this order; whoever sent
something that is settled was told, once and in this order; and the socket has taken
of each settled job what its outcome says, and a part of the first in the queue.
-/
structure Settled (q : Queue κ ε) (outcomes : List (Outcome κ ε)) : Prop where
  defined : q.undefined = false
  sent : q.sent = outcomes.map (fun o => o.job) ++ q.queue
  called : q.called = outcomes.map fun o => (o.job.callback, o.error)
  fair : ∀ o ∈ outcomes, o.Fair
  writing : Writing q (outcomes.flatMap fun o => o.taken)

theorem settled_init : Settled ({} : Queue κ ε) [] :=
  ⟨rfl, rfl, rfl, by simp, Writing.idle rfl rfl rfl⟩

theorem settled_send {q : Queue κ ε} {outcomes : List (Outcome κ ε)} (h : Settled q outcomes)
    (job : Job κ) : Settled (q.send job) outcomes := by
  unfold send
  dsimp only
  -- a write is started only where none is under way
  cases h.writing with
  | idle hqueue hwrites hwire =>
      rw [if_pos (by simp [hqueue])]
      simp only [sendFromQueue, hqueue, List.nil_append]
      refine ⟨h.defined, ?_, h.called, h.fair, ?_⟩
      · simp [h.sent, hqueue]
      · exact Writing.first job [] [] job.bytes rfl (Or.inl (by simp [hwrites])) rfl
          (by simp [hwire])
  | first job' rest taken left hqueue hwrites hbytes hwire =>
      rw [if_neg (by simp [hqueue])]
      refine ⟨h.defined, ?_, h.called, h.fair, ?_⟩
      · simp [h.sent]
      · exact Writing.first job' (rest ++ [job]) taken left (by simp [hqueue]) hwrites hbytes hwire

/-- Only the first entry is being written, so there is only one write to ask about. -/
theorem write_of_settled {q : Queue κ ε} {outcomes : List (Outcome κ ε)} (h : Settled q outcomes)
    {i : Nat} {left : Bytes} (hi : q.writes[i]? = some left) :
    i = 0 ∧ q.writes = [left] ∧ ∃ job rest taken, q.queue = job :: rest
      ∧ job.bytes = taken ++ left ∧ q.wire = (outcomes.flatMap fun o => o.taken) ++ taken := by
  cases h.writing with
  | idle hqueue hwrites hwire =>
      rw [hwrites] at hi
      exact absurd hi (by simp)
  | first job rest taken left hqueue hwrites hbytes hwire =>
      rcases hwrites with hwrites | ⟨hwrites, _⟩
      · rw [hwrites] at hi
        obtain ⟨hlt, hget⟩ := List.getElem?_eq_some_iff.mp hi
        obtain rfl : i = 0 := by simpa using hlt
        obtain rfl : left = _ := hget
        exact ⟨rfl, hwrites, job, rest, taken, hqueue, hbytes, hwire⟩
      · rw [hwrites] at hi
        exact absurd hi (by simp)

theorem settled_transfer {q : Queue κ ε} {outcomes : List (Outcome κ ε)} (h : Settled q outcomes)
    {i n : Nat} {left : Bytes} (hi : q.writes[i]? = some left) :
    Settled { q with writes := q.writes.set i (left.drop n), wire := q.wire ++ left.take n }
      outcomes := by
  obtain ⟨rfl, hwrites, job, rest, taken, hqueue, hbytes, hwire⟩ := write_of_settled h hi
  refine ⟨h.defined, h.sent, h.called, h.fair, ?_⟩
  refine Writing.first job rest (taken ++ left.take n) (left.drop n) hqueue
    (Or.inl (by simp [hwrites])) ?_ (by simp [hwire])
  rw [hbytes, List.append_assoc, List.take_append_drop]

/-- The handler of a write comes too late. -/
theorem settled_halted {q : Queue κ ε} {outcomes : List (Outcome κ ε)} (h : Settled q outcomes)
    (hhalted : q.halted = true) {i : Nat} {left : Bytes} (hi : q.writes[i]? = some left) :
    Settled { q with writes := q.writes.eraseIdx i } outcomes := by
  obtain ⟨rfl, hwrites, job, rest, taken, hqueue, hbytes, hwire⟩ := write_of_settled h hi
  refine ⟨h.defined, h.sent, h.called, h.fair, ?_⟩
  exact Writing.first job rest taken left hqueue (Or.inr ⟨by simp [hwrites], hhalted⟩) hbytes hwire

/-- A completed write settles its job, and the next one starts. -/
theorem settled_completed {q : Queue κ ε} {outcomes : List (Outcome κ ε)}
    (h : Settled q outcomes) {i : Nat} (hi : q.writes[i]? = some []) :
    ∃ job, Settled ({ q with writes := q.writes.eraseIdx i } : Queue κ ε).completed
      (outcomes ++ [⟨job, job.bytes, none⟩]) := by
  obtain ⟨rfl, hwrites, job, rest, taken, hqueue, hbytes, hwire⟩ := write_of_settled h hi
  rw [List.append_nil] at hbytes
  have hsent := h.sent
  rw [hqueue] at hsent
  have hfair : ∀ o ∈ outcomes ++ [⟨job, job.bytes, none⟩], o.Fair := by
    intro o ho
    rcases List.mem_append.mp ho with ho | ho
    · exact h.fair o ho
    · rw [List.mem_singleton.mp ho]
      exact ⟨List.prefix_refl _, fun _ => rfl⟩
  refine ⟨job, ?_⟩
  simp only [completed, hqueue, hwrites, List.eraseIdx_cons_zero]
  -- the handler starts the next write itself, if something waits
  cases rest with
  | nil =>
      refine ⟨h.defined, ?_, ?_, hfair, Writing.idle rfl rfl ?_⟩
      · simp [hsent]
      · simp [h.called]
      · simp [hwire, hbytes]
  | cons next rest =>
      rw [if_pos (by simp)]
      refine ⟨h.defined, ?_, ?_, hfair, ?_⟩
      · simp [sendFromQueue, hsent]
      · simp [sendFromQueue, h.called]
      · exact Writing.first next rest [] next.bytes rfl (Or.inl rfl) rfl
          (by simp [sendFromQueue, hwire, hbytes])

/-- A failed write settles its job with the part that was taken, and all that wait with none. -/
theorem settled_failed {q : Queue κ ε} {outcomes : List (Outcome κ ε)} (h : Settled q outcomes)
    {i : Nat} {left : Bytes} (hi : q.writes[i]? = some left) (e : ε) :
    ∃ more : List (Outcome κ ε), (∀ o ∈ more, o.error = some e)
      ∧ Settled (({ q with writes := q.writes.eraseIdx i } : Queue κ ε).failed e)
        (outcomes ++ more) := by
  obtain ⟨rfl, hwrites, job, rest, taken, hqueue, hbytes, hwire⟩ := write_of_settled h hi
  have hsent := h.sent
  rw [hqueue] at hsent
  -- the first job keeps what was taken of it, those behind it get nothing
  refine ⟨⟨job, taken, some e⟩ :: rest.map (fun j => ⟨j, [], some e⟩), ?_, ?_⟩
  · intro o ho
    rcases List.mem_cons.mp ho with rfl | ho
    · rfl
    · obtain ⟨j, _, rfl⟩ := List.mem_map.mp ho
      rfl
  · refine ⟨h.defined, ?_, ?_, ?_, Writing.idle rfl (by simp [failed, hwrites]) ?_⟩
    · simp [failed, hsent, List.map_map, Function.comp_def]
    · simp [failed, hqueue, h.called, List.map_map, Function.comp_def]
    · intro o ho
      rcases List.mem_append.mp ho with ho | ho
      · exact h.fair o ho
      · rcases List.mem_cons.mp ho with rfl | ho
        · exact ⟨⟨left, hbytes.symm⟩, fun hnone => absurd hnone (by simp)⟩
        · obtain ⟨j, _, rfl⟩ := List.mem_map.mp ho
          exact ⟨List.nil_prefix, fun hnone => absurd hnone (by simp)⟩
    · simp [failed, hwire, List.flatMap_map]

/-- What a step adds to the outcomes: of an error it speaks only when a write failed. -/
theorem settled_step {q q' : Queue κ ε} {outcomes : List (Outcome κ ε)} (h : Settled q outcomes)
    {a : Event κ ε} (hstep : step q a = some q') :
    ∃ more : List (Outcome κ ε), Settled q' (outcomes ++ more)
      ∧ ∀ o ∈ more, ∀ e, o.error = some e → ∃ i, a = .fail i e := by
  cases a with
  | send job =>
      obtain rfl := Option.some.inj hstep
      exact ⟨[], by simpa using settled_send h job, by simp⟩
  | transfer i n =>
      simp only [step] at hstep
      split at hstep
      · exact absurd hstep (by simp)
      · rename_i left hi
        split at hstep
        · obtain rfl := Option.some.inj hstep
          exact ⟨[], by simpa using settled_transfer h hi, by simp⟩
        · exact absurd hstep (by simp)
  | complete i =>
      simp only [step] at hstep
      split at hstep
      · rename_i hi
        obtain rfl := Option.some.inj hstep
        by_cases hhalted : q.halted = true
        · exact ⟨[], by simpa [hhalted] using settled_halted h hhalted hi, by simp⟩
        · obtain ⟨job, hjob⟩ := settled_completed h hi
          exact ⟨[⟨job, job.bytes, none⟩], by simpa [hhalted] using hjob, by simp⟩
      · exact absurd hstep (by simp)
  | fail i e =>
      simp only [step] at hstep
      split at hstep
      · rename_i left hi
        obtain rfl := Option.some.inj hstep
        by_cases hhalted : q.halted = true
        · exact ⟨[], by simpa [hhalted] using settled_halted h hhalted hi, by simp⟩
        · obtain ⟨more, herror, hmore⟩ := settled_failed h hi e
          refine ⟨more, by simpa [hhalted] using hmore, ?_⟩
          intro o ho e' he'
          rw [herror o ho] at he'
          exact ⟨i, by rw [Option.some.inj he']⟩
      · exact absurd hstep (by simp)
  | halt =>
      obtain rfl := Option.some.inj hstep
      refine ⟨[], ?_, by simp⟩
      rw [List.append_nil]
      refine ⟨h.defined, h.sent, h.called, h.fair, ?_⟩
      cases h.writing with
      | idle hqueue hwrites hwire => exact Writing.idle hqueue hwrites hwire
      | first job rest taken left hqueue hwrites hbytes hwire =>
          refine Writing.first job rest taken left hqueue ?_ hbytes hwire
          rcases hwrites with hwrites | ⟨hwrites, _⟩
          · exact Or.inl hwrites
          · exact Or.inr ⟨hwrites, rfl⟩

/-- **In every reachable state**, each job has one outcome at most, or waits. -/
theorem settled_reachable {q : Queue κ ε} (hq : system.Reachable q) :
    ∃ outcomes, Settled q outcomes := by
  refine System.Reachable.invariant (P := fun q => ∃ outcomes, Settled q outcomes) ?_ ?_ hq
  · rintro _ rfl
    exact ⟨[], settled_init⟩
  · rintro q a q' _ ⟨outcomes, h⟩ hstep
    obtain ⟨more, hmore, _⟩ := settled_step h hstep
    exact ⟨_, hmore⟩

/-! ## Without failures -/

/-- Nothing that was sent has failed. -/
def Sound (q : Queue κ ε) : Prop :=
  ∃ outcomes, Settled q outcomes ∧ ∀ o ∈ outcomes, o.error = none

theorem sound_init : Sound ({} : Queue κ ε) := ⟨[], settled_init, by simp⟩

theorem sound_step {q q' : Queue κ ε} (h : Sound q) {a : Event κ ε}
    (ha : ∀ i e, a ≠ .fail i e) (hstep : step q a = some q') : Sound q' := by
  obtain ⟨outcomes, hsettled, herror⟩ := h
  obtain ⟨more, hmore, hfails⟩ := settled_step hsettled hstep
  refine ⟨_, hmore, ?_⟩
  intro o ho
  rcases List.mem_append.mp ho with ho | ho
  · exact herror o ho
  · cases hoe : o.error with
    | none => rfl
    | some e =>
        obtain ⟨i, hi⟩ := hfails o ho e hoe
        exact absurd hi (ha i e)

/--
**The socket takes the jobs one after the other**, each whole before the next begins;
once nothing waits, all of them, and everyone has been told so.
-/
theorem Sound.wire {q : Queue κ ε} (h : Sound q) :
    q.wire <+: (q.sent.flatMap fun job => job.bytes)
      ∧ (q.queue = [] → q.wire = (q.sent.flatMap fun job => job.bytes)
        ∧ q.called = q.sent.map fun job => (job.callback, none)) := by
  obtain ⟨outcomes, hsettled, herror⟩ := h
  -- without an error every outcome is the whole job
  have htaken : (outcomes.flatMap fun o => o.taken)
      = (outcomes.map fun o => o.job).flatMap fun job => job.bytes := by
    rw [List.flatMap_map]
    refine List.flatMap_congr ?_
    intro o ho
    exact (hsettled.fair o ho).2 (herror o ho)
  rw [hsettled.sent, List.flatMap_append]
  cases hsettled.writing with
  | idle hqueue hwrites hwire =>
      refine ⟨⟨_, by rw [hwire, htaken]⟩, ?_⟩
      intro _
      refine ⟨by simp [hwire, htaken, hqueue], ?_⟩
      rw [hsettled.called, hqueue, List.append_nil, List.map_map]
      refine List.map_congr_left ?_
      intro o ho
      simp [herror o ho]
  | first job rest taken left hqueue hwrites hbytes hwire =>
      refine ⟨⟨left ++ rest.flatMap fun job => job.bytes, ?_⟩, ?_⟩
      · simp [hwire, htaken, hqueue, hbytes]
      · intro hnil
        rw [hqueue] at hnil
        exact absurd hnil (by simp)

end Queue

end SendQueue
