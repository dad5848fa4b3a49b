import Mathlib.Data.List.Induction

/-!
# Transition systems, their runs and what holds along them

A system is a set of initial states and a partial step function on labels: every
choice the environment can make (which message arrives, in which order a set is
walked) is part of the label, so one label has at most one outcome.

The two rules everything else is proved with are `run_induction`, which carries a
statement about the labels taken *and* the state reached from one step to whole
runs, and `Reachable.invariant`, its special case that forgets the labels. For code
that is measured against a system there is `run_simulation`.
-/

namespace Transition

/-- A labelled transition system. -/
structure System (σ α : Type) where
  /-- Where a run may begin. -/
  init : σ → Prop
  /-- One step; `none` where the label is not enabled. -/
  step : σ → α → Option σ

namespace System

variable {σ α : Type} (S : System σ α)

/-- Take a list of labels one after the other. -/
def run : σ → List α → Option σ
  | s, [] => some s
  | s, a :: as =>
      match S.step s a with
      | none => none
      | some s' => run s' as

@[simp] theorem run_nil (s : σ) : S.run s [] = some s := rfl

theorem run_cons (s : σ) (a : α) (as : List α) :
    S.run s (a :: as) = (S.step s a).bind (fun s' => S.run s' as) := by
  rw [run]
  cases S.step s a <;> rfl

theorem run_append (s : σ) (as bs : List α) :
    S.run s (as ++ bs) = (S.run s as).bind (fun s' => S.run s' bs) := by
  induction as generalizing s with
  | nil => rfl
  | cons a as ih =>
      rw [List.cons_append, run_cons, run_cons]
      cases S.step s a with
      | none => rfl
      | some s' => exact ih s'

/-- A run that ends with `a` is a run, and then the step `a`. -/
theorem run_snoc {s s' : σ} {as : List α} {a : α} :
    S.run s (as ++ [a]) = some s' ↔ ∃ t, S.run s as = some t ∧ S.step t a = some s' := by
  rw [run_append]
  cases S.run s as with
  | none => simp
  | some t => simp [run_cons]

theorem run_append_eq_some {s s' : σ} {as bs : List α} :
    S.run s (as ++ bs) = some s' ↔ ∃ t, S.run s as = some t ∧ S.run t bs = some s' := by
  rw [run_append, Option.bind_eq_some_iff]

/--
**The simulation rule.** Code that takes its inputs one after the other keeps a
relation to the system along every run, if each input keeps it for one step.
-/
theorem run_simulation {ρ δ : Type} {R : ρ → σ → Prop} {label : δ → α} {code : ρ → δ → ρ} :
    ∀ {ds : List δ}, (∀ d ∈ ds, ∀ c s s', R c s → S.step s (label d) = some s' →
        R (code c d) s') →
      ∀ {c : ρ} {s s' : σ}, R c s → S.run s (ds.map label) = some s' →
        R (ds.foldl code c) s' := by
  intro ds
  induction ds with
  | nil =>
      intro _ c s s' hR hrun
      obtain rfl := Option.some.inj hrun
      exact hR
  | cons d ds ih =>
      intro hstep c s s' hR hrun
      rw [List.map_cons, run_cons, Option.bind_eq_some_iff] at hrun
      obtain ⟨t, ht, hrest⟩ := hrun
      have hfirst : R (code c d) t := hstep d (by simp) c s t hR ht
      exact ih (fun e he => hstep e (List.mem_cons_of_mem d he)) hfirst hrest

variable {S}

/--
**The run rule.** A statement about the labels taken so far and the state they
lead to holds of every run, if it holds of the empty one and one more step keeps it.
-/
theorem run_induction {P : List α → σ → Prop} {s₀ : σ} (start : P [] s₀)
    (keep : ∀ as s a s', S.run s₀ as = some s → P as s → S.step s a = some s' →
      P (as ++ [a]) s') :
    ∀ {as : List α} {s : σ}, S.run s₀ as = some s → P as s := by
  intro as
  induction as using List.reverseRecOn with
  | nil =>
      intro s h
      rw [run_nil] at h
      exact Option.some.inj h ▸ start
  | append_singleton as a ih =>
      intro s h
      obtain ⟨t, ht, hs⟩ := S.run_snoc.mp h
      exact keep as t a s ht (ih ht) hs

variable (S) in
/-- The states some run from an initial state ends in. -/
inductive Reachable : σ → Prop where
  | init {s : σ} : S.init s → Reachable s
  | tail {s s' : σ} {a : α} : Reachable s → S.step s a = some s' → Reachable s'

/-- **The invariant rule.** What holds initially and is kept by every step holds throughout. -/
theorem Reachable.invariant {P : σ → Prop} (start : ∀ s, S.init s → P s)
    (keep : ∀ s a s', S.Reachable s → P s → S.step s a = some s' → P s') :
    ∀ {s : σ}, S.Reachable s → P s := by
  intro s h
  induction h with
  | init h0 => exact start _ h0
  | tail hr hs ih => exact keep _ _ _ hr ih hs

theorem Reachable.run {s s' : σ} {as : List α} (h : S.Reachable s)
    (hrun : S.run s as = some s') : S.Reachable s' :=
  run_induction (P := fun _ t => S.Reachable t) h (fun _ _ _ _ _ ht hs => ht.tail hs) hrun

end System

/-! ## Runs given by their events -/

/--
**The prefix rule.** Where a fact at one state says of the next event exactly that
the fact holds again behind it, it holds all along a run if and only if every event
of the run is of that kind.
-/
theorem forall_prefix_iff {α : Type} {P : List α → Prop} {Q : List α → α → Prop}
    (start : P []) (next : ∀ before a, P before → (P (before ++ [a]) ↔ Q before a))
    (events : List α) :
    (∀ before, before <+: events → P before)
      ↔ ∀ before a, before ++ [a] <+: events → Q before a := by
  refine ⟨?_, ?_⟩
  · intro h before a hpre
    have hbefore : P before := h before ((List.prefix_append before [a]).trans hpre)
    exact (next before a hbefore).mp (h _ hpre)
  · intro h before
    induction before using List.reverseRecOn with
    | nil => exact fun _ => start
    | append_singleton before a ih =>
        intro hpre
        have hbefore : P before := ih ((List.prefix_append before [a]).trans hpre)
        exact (next before a hbefore).mpr (h before a hpre)

end Transition
