import Mathlib.Logic.Relation
import MobaDisplay.Lib.CxxString
import MobaDisplay.Lib.Transition

/-!
# Code that reads exact numbers of bytes from a stream

A reader asks for a number of bytes, gets them all at once when that many have
arrived, and then asks again or stops. How the stream is cut on its way, and how far
the reader is whenever the next piece comes in, are choices of the environment: a
run mixes arrivals and completed reads in any order.

None of that matters. `run_reads` turns any run into one over everything that
arrived in it, and since a reader has no choice itself, of two courses over the same
bytes one continues the other (`Reads.total`).
-/

namespace AsyncRead

open Cxx (Bytes)
open Transition Relation

/-- What is done with the bytes that were asked for. -/
structure Reader (σ ε : Type) where
  /-- The size of the read under way; `none` if there is none. -/
  need : σ → Option Nat
  /-- The handler of the read, given the bytes. -/
  handle : σ → Bytes → σ
  /-- The handler, given an error. -/
  fail : σ → ε → σ

/-- A reader and what has arrived for it. -/
structure Link (σ : Type) where
  state : σ
  received : Bytes
  deriving DecidableEq

inductive Event (ε : Type) where
  /-- A segment arrives. -/
  | arrive (bytes : Bytes)
  /-- The read under way completes. -/
  | complete
  /-- It fails. -/
  | fail (e : ε)

namespace Reader

variable {σ ε : Type} (R : Reader σ ε)

/-- The read under way completes, if everything it asks for has arrived. -/
def complete (x : Link σ) : Option (Link σ) :=
  match R.need x.state with
  | none => none
  | some n =>
      if n ≤ x.received.length then
        some ⟨R.handle x.state (x.received.take n), x.received.drop n⟩
      else none

def step (x : Link σ) : Event ε → Option (Link σ)
  | .arrive bytes => some { x with received := x.received ++ bytes }
  | .complete => R.complete x
  | .fail e => if (R.need x.state).isSome then some { x with state := R.fail x.state e } else none

/-- The runs that begin in one given state, before anything has arrived. -/
def system (s₀ : σ) : System (Link σ) (Event ε) where
  init := fun x => x = ⟨s₀, []⟩
  step := R.step

/-- Nothing that has arrived can be read any more. -/
def Quiet (x : Link σ) : Prop := R.complete x = none

/-- Any number of reads completes. -/
def Reads : Link σ → Link σ → Prop := ReflTransGen fun x y => R.complete x = some y

variable {R}

theorem complete_eq_some {x y : Link σ} :
    R.complete x = some y ↔ ∃ n, R.need x.state = some n ∧ n ≤ x.received.length
      ∧ y = ⟨R.handle x.state (x.received.take n), x.received.drop n⟩ := by
  unfold complete
  cases hneed : R.need x.state with
  | none => simp
  | some n =>
      dsimp only
      split
      · rename_i hn
        refine ⟨?_, ?_⟩
        · intro h
          exact ⟨n, rfl, hn, (Option.some.inj h).symm⟩
        · rintro ⟨m, hm, _, rfl⟩
          obtain rfl := Option.some.inj hm
          rfl
      · rename_i hn
        refine ⟨fun h => absurd h (by simp), ?_⟩
        rintro ⟨m, hm, hle, _⟩
        obtain rfl := Option.some.inj hm
        exact absurd hle hn

theorem Reads.refl (x : Link σ) : R.Reads x x := ReflTransGen.refl

theorem Reads.trans {x y z : Link σ} (h : R.Reads x y) (h' : R.Reads y z) : R.Reads x z :=
  ReflTransGen.trans h h'

/-- One read, with its bytes in front of what has arrived. -/
theorem Reads.one {s : σ} {bytes : Bytes} (h : R.need s = some bytes.length) (rest : Bytes) :
    R.Reads ⟨s, bytes ++ rest⟩ ⟨R.handle s bytes, rest⟩ := by
  refine ReflTransGen.single (complete_eq_some.mpr ⟨bytes.length, h, by simp, ?_⟩)
  simp

/-- What arrives later does not change a read that can complete now. -/
theorem complete_append {x y : Link σ} (h : R.complete x = some y) (more : Bytes) :
    R.complete { x with received := x.received ++ more }
      = some { y with received := y.received ++ more } := by
  obtain ⟨n, hneed, hn, rfl⟩ := complete_eq_some.mp h
  refine complete_eq_some.mpr ⟨n, hneed, ?_, ?_⟩
  · simp only [List.length_append]
    omega
  · simp only [List.take_append_of_le_length hn, List.drop_append_of_le_length hn]

theorem Reads.append {x y : Link σ} (h : R.Reads x y) (more : Bytes) :
    R.Reads { x with received := x.received ++ more }
      { y with received := y.received ++ more } := by
  induction h with
  | refl => exact ReflTransGen.refl
  | tail _ hlast ih => exact ih.tail (complete_append hlast more)

/-! ## Runs -/

/-- Everything that arrives in a run. -/
def arrived : List (Event ε) → Bytes
  | [] => []
  | .arrive bytes :: es => bytes ++ arrived es
  | .complete :: es => arrived es
  | .fail _ :: es => arrived es

theorem arrived_append (es es' : List (Event ε)) :
    arrived (es ++ es') = arrived es ++ arrived es' := by
  induction es with
  | nil => rfl
  | cons e es ih => cases e <;> simp [arrived, ih]

/-- No read of the run fails. -/
def Undisturbed (es : List (Event ε)) : Prop := ∀ e, .fail e ∉ es

/--
**A run is a run over all that arrives in it**, whatever the segments, and whenever
they come in.
-/
theorem run_reads {s₀ : σ} {es : List (Event ε)} (hes : Undisturbed es) {x y : Link σ}
    (hrun : (R.system s₀).run x es = some y) :
    R.Reads { x with received := x.received ++ arrived es } y := by
  induction es generalizing x with
  | nil =>
      obtain rfl := Option.some.inj hrun
      rw [arrived, List.append_nil]
      exact Reads.refl x
  | cons e es ih =>
      have hrest : Undisturbed es := fun e' he' => hes e' (List.mem_cons_of_mem e he')
      rw [System.run_cons, Option.bind_eq_some_iff] at hrun
      obtain ⟨z, hz, hrun⟩ := hrun
      have hreads := ih hrest hrun
      cases e with
      | arrive bytes =>
          obtain rfl := Option.some.inj hz
          simpa [arrived] using hreads
      | complete => exact ReflTransGen.head (complete_append hz (arrived es)) hreads
      | fail e => exact absurd (List.mem_cons_self ..) (hes e)

/-- A reader has no choice: of two courses it takes, one continues the other. -/
theorem Reads.total {x y z : Link σ} (hy : R.Reads x y) (hz : R.Reads x z) :
    R.Reads y z ∨ R.Reads z y := by
  refine ReflTransGen.total_of_right_unique ?_ hy hz
  intro a b c hb hc
  exact Option.some.inj (hb.symm.trans hc)

/-- Where nothing is left to do, nothing more is done. -/
theorem Reads.eq_of_quiet {x y : Link σ} (h : R.Reads x y) (hx : R.Quiet x) : y = x := by
  rcases ReflTransGen.cases_head h with heq | ⟨z, hz, _⟩
  · exact heq.symm
  · rw [Quiet, hz] at hx
    exact absurd hx (by simp)

/-- A course to a state where nothing is left to do continues every other one. -/
theorem Reads.to_quiet {x y z : Link σ} (hy : R.Reads x y) (hz : R.Reads x z)
    (hquiet : R.Quiet z) : R.Reads y z := by
  rcases hy.total hz with h | h
  · exact h
  · rw [h.eq_of_quiet hquiet]
    exact Reads.refl z

variable (R) in
/-- With the reads that can complete, and no others, it comes to rest in this state. -/
def Settles (x : Link σ) (s : σ) : Prop :=
  ∃ k y, (R.system s).run x (List.replicate k .complete) = some y ∧ R.Quiet y ∧ y.state = s

/-- A course of reads is a run of completions. -/
theorem Reads.run {x y : Link σ} (h : R.Reads x y) (s₀ : σ) :
    ∃ k, (R.system s₀).run x (List.replicate k .complete) = some y := by
  induction h with
  | refl => exact ⟨0, rfl⟩
  | tail _ hlast ih =>
      obtain ⟨k, hk⟩ := ih
      refine ⟨k + 1, ?_⟩
      rw [List.replicate_succ', System.run_snoc]
      exact ⟨_, hk, hlast⟩

theorem Reads.settles {x y : Link σ} (h : R.Reads x y) (hy : R.Quiet y) :
    R.Settles x y.state := by
  obtain ⟨k, hk⟩ := h.run y.state
  exact ⟨k, y, hk, hy, rfl⟩

/-- What every read keeps or extends, a whole course of them does. -/
theorem Reads.invariant {P : σ → Prop} {x y : Link σ} (h : R.Reads x y)
    (keep : ∀ s n bytes, R.need s = some n → bytes.length = n → P s → P (R.handle s bytes))
    (hx : P x.state) : P y.state := by
  induction h with
  | refl => exact hx
  | tail _ hlast ih =>
      obtain ⟨n, hneed, hn, rfl⟩ := complete_eq_some.mp hlast
      exact keep _ n _ hneed (by simpa using hn) ih

end Reader

end AsyncRead
