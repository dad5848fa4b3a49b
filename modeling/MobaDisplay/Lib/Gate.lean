import MobaDisplay.Lib.Transition

/-!
# A gate that can be closed for good

Parties enter a gate and leave it again. Somebody may close it, but only while nobody
is inside, and it stays closed: who comes later is refused. It is what a component
needs that must not be taken apart while its handlers run.

The two results are about any run: at a closing as many have left as had entered and
nobody enters afterwards (`run_close`), and nobody is refused before it (`run_refuse`).
-/

namespace Gate

open Transition

inductive Event (κ : Type) where
  | enter (k : κ)
  | leave (k : κ)
  | refuse (k : κ)
  | close (k : κ)
  deriving DecidableEq

structure State (κ : Type) where
  closed : Bool
  inside : List κ

variable {κ : Type} [DecidableEq κ]

def start : State κ := ⟨false, []⟩

def step (g : State κ) : Event κ → Option (State κ)
  | .enter k =>
      if g.closed = false ∧ k ∉ g.inside then some { g with inside := k :: g.inside } else none
  | .leave k => if k ∈ g.inside then some { g with inside := g.inside.erase k } else none
  | .refuse _ => if g.closed then some g else none
  | .close _ => if g.inside = [] then some { g with closed := true } else none

def system : System (State κ) (Event κ) where
  init := fun g => g = start
  step := step

theorem step_enter {g g' : State κ} {k : κ} (h : step g (.enter k) = some g') :
    g.closed = false ∧ k ∉ g.inside ∧ g' = ⟨g.closed, k :: g.inside⟩ := by
  obtain ⟨hfree, ⟨⟩⟩ := Option.ite_none_right_eq_some.mp h
  exact ⟨hfree.1, hfree.2, rfl⟩

theorem step_leave {g g' : State κ} {k : κ} (h : step g (.leave k) = some g') :
    k ∈ g.inside ∧ g' = ⟨g.closed, g.inside.erase k⟩ := by
  obtain ⟨hin, ⟨⟩⟩ := Option.ite_none_right_eq_some.mp h
  exact ⟨hin, rfl⟩

theorem step_refuse {g g' : State κ} {k : κ} (h : step g (.refuse k) = some g') :
    g.closed = true ∧ g' = g := by
  obtain ⟨hclosed, ⟨⟩⟩ := Option.ite_none_right_eq_some.mp h
  exact ⟨hclosed, rfl⟩

theorem step_close {g g' : State κ} {k : κ} (h : step g (.close k) = some g') :
    g.inside = [] ∧ g' = ⟨true, g.inside⟩ := by
  obtain ⟨hempty, ⟨⟩⟩ := Option.ite_none_right_eq_some.mp h
  exact ⟨hempty, rfl⟩

/-! ## Who is inside -/

/-- Who is inside has entered once more than it left, and everybody else as often. -/
structure Counted (events : List (Event κ)) (g : State κ) : Prop where
  nodup : g.inside.Nodup
  count : ∀ j, events.count (.enter j) = events.count (.leave j) + if j ∈ g.inside then 1 else 0

theorem counted_step {events : List (Event κ)} {g g' : State κ} {e : Event κ}
    (h : Counted events g) (hstep : step g e = some g') : Counted (events ++ [e]) g' := by
  cases e with
  | enter k =>
      obtain ⟨-, hnew, rfl⟩ := step_enter hstep
      refine ⟨List.nodup_cons.mpr ⟨hnew, h.nodup⟩, fun j => ?_⟩
      have hj := h.count j
      by_cases hjk : j = k
      · subst hjk
        simp [hnew] at hj ⊢
        omega
      · have hkj : ¬ k = j := fun heq => hjk heq.symm
        simp [hjk, hkj] at hj ⊢
        omega
  | leave k =>
      obtain ⟨hin, rfl⟩ := step_leave hstep
      refine ⟨h.nodup.erase k, fun j => ?_⟩
      have hj := h.count j
      by_cases hjk : j = k
      · subst hjk
        simp [hin, h.nodup.mem_erase_iff] at hj ⊢
        omega
      · have hkj : ¬ k = j := fun heq => hjk heq.symm
        simp [hjk, hkj, h.nodup.mem_erase_iff] at hj ⊢
        omega
  | refuse k =>
      obtain ⟨-, rfl⟩ := step_refuse hstep
      exact ⟨h.nodup, fun j => by simpa using h.count j⟩
  | close k =>
      obtain ⟨-, rfl⟩ := step_close hstep
      exact ⟨h.nodup, fun j => by simpa using h.count j⟩

theorem counted_run {events : List (Event κ)} {g : State κ}
    (h : system.run start events = some g) : Counted events g :=
  System.run_induction (P := Counted) ⟨List.nodup_nil, fun _ => by simp [start]⟩
    (fun _ _ _ _ _ hg hs => counted_step hg hs) h

/-! ## Closing -/

/-- Closed, with nobody inside; it never ends. -/
def Shut (g : State κ) : Prop := g.closed = true ∧ g.inside = []

theorem shut_step {g g' : State κ} {e : Event κ} (h : Shut g) (hstep : step g e = some g') :
    Shut g' ∧ ∀ j, e ≠ .enter j := by
  cases e with
  | enter k =>
      obtain ⟨hopen, -⟩ := step_enter hstep
      exact absurd h.1 (by simp [hopen])
  | leave k =>
      obtain ⟨hin, -⟩ := step_leave hstep
      exact absurd hin (by simp [h.2])
  | refuse k =>
      obtain ⟨-, rfl⟩ := step_refuse hstep
      exact ⟨h, nofun⟩
  | close k =>
      obtain ⟨hempty, rfl⟩ := step_close hstep
      exact ⟨⟨rfl, hempty⟩, nofun⟩

theorem shut_run {g g' : State κ} {events : List (Event κ)} (h : Shut g)
    (hrun : system.run g events = some g') : Shut g' ∧ ∀ j, .enter j ∉ events :=
  System.run_induction (P := fun events g' => Shut g' ∧ ∀ j, .enter j ∉ events) ⟨h, by simp⟩
    (fun events g e g' _ hg hs => by
      obtain ⟨hshut, hne⟩ := shut_step hg.1 hs
      refine ⟨hshut, fun j hmem => ?_⟩
      rcases List.mem_append.mp hmem with hmem | hmem
      · exact hg.2 j hmem
      · exact hne j (List.mem_singleton.mp hmem).symm)
    hrun

/-- At a closing everybody has left again, and nobody enters afterwards. -/
theorem run_close {before after : List (Event κ)} {k : κ} {g : State κ}
    (h : system.run start (before ++ .close k :: after) = some g) :
    (∀ j, before.count (.enter j) = before.count (.leave j)) ∧ (∀ j, .enter j ∉ after) := by
  obtain ⟨g₁, hbefore, hrest⟩ := system.run_append_eq_some.mp h
  rw [System.run_cons, Option.bind_eq_some_iff] at hrest
  obtain ⟨g₂, hclose, hafter⟩ := hrest
  obtain ⟨hempty, rfl⟩ := step_close (k := k) hclose
  refine ⟨fun j => ?_, (shut_run (g := ⟨true, g₁.inside⟩) ⟨rfl, hempty⟩ hafter).2⟩
  have hj := (counted_run hbefore).count j
  rw [hempty] at hj
  simpa using hj

/-- A gate is closed by a closing only. -/
theorem closed_run {events : List (Event κ)} {g : State κ}
    (h : system.run start events = some g) : g.closed = true → ∃ k, .close k ∈ events := by
  refine System.run_induction (S := system)
    (P := fun events g => g.closed = true → ∃ k, .close k ∈ events) ?_ ?_ h
  · intro hclosed
    exact absurd hclosed (by simp [start])
  · intro events g e g' _ ih hs hclosed
    cases e with
    | close k => exact ⟨k, by simp⟩
    | enter j =>
        obtain ⟨hopen, -, rfl⟩ := step_enter hs
        exact absurd hclosed (by simp [hopen])
    | leave j =>
        obtain ⟨-, rfl⟩ := step_leave hs
        obtain ⟨k, hk⟩ := ih hclosed
        exact ⟨k, List.mem_append_left _ hk⟩
    | refuse j =>
        obtain ⟨-, rfl⟩ := step_refuse (k := j) hs
        obtain ⟨k, hk⟩ := ih hclosed
        exact ⟨k, List.mem_append_left _ hk⟩

theorem run_refuse {before after : List (Event κ)} {j : κ} {g : State κ}
    (h : system.run start (before ++ .refuse j :: after) = some g) :
    ∃ k, .close k ∈ before := by
  obtain ⟨g₁, hbefore, hrest⟩ := system.run_append_eq_some.mp h
  rw [System.run_cons, Option.bind_eq_some_iff] at hrest
  obtain ⟨g₂, hrefuse, -⟩ := hrest
  exact closed_run hbefore (step_refuse (k := j) hrefuse).1

end Gate
