import MobaDisplay.Lib.Gate

/-!
# `ScopeRunner`

Every handler of the web servers begins with `handler_runner->continue_lock()` and
does nothing if there is no lock; the destructor of a server calls
`handler_runner->stop()` first. Both are loops around `compare_exchange_weak` on one
counter, and any number of threads run them at a time.

A step is one access to the counter, with what the thread does on its own up to the
next one. Every call has a name of its own, so a thread is any row of calls.
-/

namespace MobaDisplay

open Transition

/-- Where a call of `continue_lock`, or one of `stop`, is. -/
inductive ScopeRunner.Call where
  | unmade
  /-- In the loop of `continue_lock`, in front of `compare_exchange_weak`. -/
  | continuing (expected : Int)
  /-- The `SharedLock` it returned lives. -/
  | locked
  | destroyed
  /-- It returned `nullptr`. -/
  | null
  /-- In the loop of `stop`; `expected` is 0 there. -/
  | stopping
  | stopped
  deriving DecidableEq

structure ScopeRunner (κ : Type) where
  /-- Scope count that is set to -1 if scopes are to be canceled. -/
  count : Int
  calls : κ → ScopeRunner.Call
  /-- The locks that were returned, destroyed and refused, and the ends of `stop`. -/
  history : List (Gate.Event κ)
  /-- The calls of `continue_lock` whose exchange found another value in the counter. -/
  failures : List κ

namespace ScopeRunner

variable {κ : Type}

def start : ScopeRunner κ := ⟨0, fun _ => .unmade, [], []⟩

inductive Action (κ : Type) where
  /-- `long expected = count` -/
  | continueLock (k : κ)
  /-- The `compare_exchange_weak` of `continue_lock`. -/
  | exchange (k : κ) (spurious : Bool)
  /-- `~SharedLock` -/
  | destroy (k : κ)
  | stop (k : κ)
  /-- The `compare_exchange_weak` of `stop`. -/
  | exchangeStop (k : κ) (spurious : Bool)

/-- `compare_exchange_weak`: whether it took place, `expected` and the counter after it. -/
def compareExchangeWeak (count expected desired : Int) (spurious : Bool) : Bool × Int × Int :=
  if count = expected ∧ spurious = false then (true, expected, desired) else (false, count, count)

def log (s : ScopeRunner κ) (e : Gate.Event κ) : ScopeRunner κ :=
  { s with history := s.history ++ [e] }

@[simp] theorem log_count (s : ScopeRunner κ) (e : Gate.Event κ) : (s.log e).count = s.count := rfl

@[simp] theorem log_calls (s : ScopeRunner κ) (e : Gate.Event κ) : (s.log e).calls = s.calls := rfl

@[simp] theorem log_history (s : ScopeRunner κ) (e : Gate.Event κ) :
    (s.log e).history = s.history ++ [e] := rfl

@[simp] theorem log_failures (s : ScopeRunner κ) (e : Gate.Event κ) :
    (s.log e).failures = s.failures := rfl

variable [DecidableEq κ]

def setCall (s : ScopeRunner κ) (k : κ) (c : Call) : ScopeRunner κ :=
  { s with calls := fun j => if j = k then c else s.calls j }

/-- The condition of the loop of `continue_lock` up to the exchange. -/
def loop (s : ScopeRunner κ) (k : κ) (expected : Int) : ScopeRunner κ :=
  if 0 ≤ expected then s.setCall k (.continuing expected)
  else (s.setCall k .null).log (.refuse k)

def step (s : ScopeRunner κ) : Action κ → Option (ScopeRunner κ)
  | .continueLock k =>
      match s.calls k with
      | .unmade => some (s.loop k s.count)
      | _ => none
  | .exchange k spurious =>
      match s.calls k with
      | .continuing expected =>
          match compareExchangeWeak s.count expected (expected + 1) spurious with
          | (true, _, count) =>
              some (({ s with count := count }.setCall k .locked).log (.enter k))
          | (false, expected, _) =>
              let failed := if spurious then [] else [k]
              some ({ s with failures := s.failures ++ failed }.loop k expected)
      | _ => none
  | .destroy k =>
      match s.calls k with
      | .locked =>
          some (({ s with count := s.count - 1 }.setCall k .destroyed).log (.leave k))
      | _ => none
  | .stop k =>
      match s.calls k with
      | .unmade => some (s.setCall k .stopping)
      | _ => none
  | .exchangeStop k spurious =>
      match s.calls k with
      | .stopping =>
          match compareExchangeWeak s.count 0 (-1) spurious with
          | (true, _, count) =>
              some (({ s with count := count }.setCall k .stopped).log (.close k))
          | (false, expected, _) =>
              if expected < 0 then some ((s.setCall k .stopped).log (.close k)) else some s
      | _ => none

def system : System (ScopeRunner κ) (Action κ) where
  init := fun s => s = start
  step := step

/-! ## What a step can do -/

@[simp] theorem setCall_self (s : ScopeRunner κ) (k : κ) (c : Call) :
    (s.setCall k c).calls k = c := by
  simp [setCall]

theorem setCall_other (s : ScopeRunner κ) {k j : κ} (c : Call) (h : j ≠ k) :
    (s.setCall k c).calls j = s.calls j := by
  simp [setCall, h]

@[simp] theorem setCall_count (s : ScopeRunner κ) (k : κ) (c : Call) :
    (s.setCall k c).count = s.count := rfl

@[simp] theorem setCall_history (s : ScopeRunner κ) (k : κ) (c : Call) :
    (s.setCall k c).history = s.history := rfl

@[simp] theorem setCall_failures (s : ScopeRunner κ) (k : κ) (c : Call) :
    (s.setCall k c).failures = s.failures := rfl

theorem compareExchangeWeak_cases (count expected desired : Int) (spurious : Bool) :
    (count = expected ∧ spurious = false ∧
        compareExchangeWeak count expected desired spurious = (true, expected, desired)) ∨
      ((spurious = false → count ≠ expected) ∧
        compareExchangeWeak count expected desired spurious = (false, count, count)) := by
  unfold compareExchangeWeak
  by_cases h : count = expected ∧ spurious = false
  · rw [if_pos h]
    exact .inl ⟨h.1, h.2, rfl⟩
  · rw [if_neg h]
    exact .inr ⟨fun hs hc => h ⟨hc, hs⟩, rfl⟩

/-- Call `k` may read the counter; it is in `failed` if that was an exchange in vain. -/
def Reads (s : ScopeRunner κ) (k : κ) (failed : List κ) : Prop :=
  (s.calls k = .unmade ∧ failed = []) ∨
    ∃ expected, s.calls k = .continuing expected ∧
      (failed = [] ∨ (failed = [k] ∧ s.count ≠ expected))

inductive Steps (s : ScopeRunner κ) : ScopeRunner κ → Prop where
  | continuing {k : κ} {failed : List κ} (reads : s.Reads k failed) (free : 0 ≤ s.count) :
      Steps s ({ s with failures := s.failures ++ failed }.setCall k (.continuing s.count))
  | null {k : κ} {failed : List κ} (reads : s.Reads k failed) (closed : s.count < 0) :
      Steps s (({ s with failures := s.failures ++ failed }.setCall k .null).log (.refuse k))
  | locked {k : κ} (call : s.calls k = .continuing s.count) :
      Steps s (({ s with count := s.count + 1 }.setCall k .locked).log (.enter k))
  | destroyed {k : κ} (call : s.calls k = .locked) :
      Steps s (({ s with count := s.count - 1 }.setCall k .destroyed).log (.leave k))
  | stopping {k : κ} (call : s.calls k = .unmade) : Steps s (s.setCall k .stopping)
  | closed {k : κ} (call : s.calls k = .stopping) (free : s.count = 0) :
      Steps s (({ s with count := -1 }.setCall k .stopped).log (.close k))
  | stopped {k : κ} (call : s.calls k = .stopping) (closed : s.count < 0) :
      Steps s ((s.setCall k .stopped).log (.close k))
  | again : Steps s s

theorem loop_steps {s : ScopeRunner κ} {k : κ} {failed : List κ} (h : s.Reads k failed) :
    Steps s ({ s with failures := s.failures ++ failed }.loop k s.count) := by
  unfold loop
  split
  · next hfree => exact .continuing h hfree
  · next hclosed => exact .null h (by omega)

theorem step_steps {s s' : ScopeRunner κ} {a : Action κ} (h : step s a = some s') :
    Steps s s' := by
  cases a with
  | continueLock k =>
      simp only [step] at h
      split at h
      · next hcall =>
          cases h
          simpa using loop_steps (show s.Reads k [] from .inl ⟨hcall, rfl⟩)
      · cases h
  | exchange k spurious =>
      simp only [step] at h
      split at h
      · next expected hcall =>
          rcases compareExchangeWeak_cases s.count expected (expected + 1) spurious with
            ⟨rfl, rfl, hx⟩ | ⟨hne, hx⟩
          · rw [hx] at h
            cases h
            exact .locked hcall
          · rw [hx] at h
            cases h
            cases spurious with
            | true => exact loop_steps (.inr ⟨expected, hcall, .inl rfl⟩)
            | false => exact loop_steps (.inr ⟨expected, hcall, .inr ⟨rfl, hne rfl⟩⟩)
      · cases h
  | destroy k =>
      simp only [step] at h
      split at h
      · next hcall => cases h; exact .destroyed hcall
      · cases h
  | stop k =>
      simp only [step] at h
      split at h
      · next hcall => cases h; exact .stopping hcall
      · cases h
  | exchangeStop k spurious =>
      simp only [step] at h
      split at h
      · next hcall =>
          rcases compareExchangeWeak_cases s.count 0 (-1) spurious with
            ⟨hfree, rfl, hx⟩ | ⟨-, hx⟩
          · rw [hx] at h
            cases h
            exact .closed hcall hfree
          · rw [hx] at h
            simp only at h
            split at h
            · next hclosed => cases h; exact .stopped hcall hclosed
            · cases h; exact .again
      · cases h

end ScopeRunner

end MobaDisplay
