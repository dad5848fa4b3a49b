import MobaDisplay.Lib.Transition
import Mathlib.Data.Set.Card
import Mathlib.Logic.Equiv.Basic

/-!
# Places, what stands in them, and moves

An occupancy says of every place what stands there, if anything, and nothing stands
in two places. A move takes what stands in one place to another one that is free:
the two places exchange what they hold. So after any run of moves every place holds
what some place held before, each one exactly once (`run_perm`), and whatever is
counted over the places stays the same.
-/

open Transition

/-- What stands in which place. -/
structure Occupancy (β τ : Type) where
  /-- What stands in a place. -/
  holder : β → Option τ
  /-- Nothing stands in two places. -/
  once : ∀ a b t, holder a = some t → holder b = some t → a = b

namespace Occupancy

variable {β τ : Type}

/-- Something, the place it stands in and the place it goes to. -/
structure Move (β τ : Type) where
  thing : τ
  source : β
  target : β

/-- Something stands in one place at most. -/
theorem unique_place (o : Occupancy β τ) {b : β} {t : τ} (h : o.holder b = some t) :
    ∃! b, o.holder b = some t :=
  ⟨b, h, fun a ha => o.once a b t ha h⟩

/-- A rearrangement of the places keeps how many are of a kind. -/
theorem encard_rearranged (π : Equiv.Perm β) (P : β → Prop) :
    {b | P (π b)}.encard = {b | P b}.encard :=
  Set.encard_congr (π.subtypeEquiv (fun _ => Iff.rfl))

variable [DecidableEq β] [DecidableEq τ]

/-- The occupancy with the contents of two places exchanged. -/
def exchange (o : Occupancy β τ) (a b : β) : Occupancy β τ where
  holder := fun c => o.holder (Equiv.swap a b c)
  once := by
    intro c d t hc hd
    exact (Equiv.swap a b).injective (o.once _ _ t hc hd)

/-- The occupancy after a move; `none` unless the thing stands there and the target is free. -/
def move (o : Occupancy β τ) (m : Move β τ) : Option (Occupancy β τ) :=
  if o.holder m.source = some m.thing ∧ o.holder m.target = none then
    some (o.exchange m.source m.target)
  else
    none

theorem move_eq_some {o o' : Occupancy β τ} {m : Move β τ} (h : o.move m = some o') :
    o.holder m.source = some m.thing ∧ o.holder m.target = none
      ∧ o' = o.exchange m.source m.target := by
  unfold move at h
  split at h
  · rename_i henabled
    exact ⟨henabled.1, henabled.2, (Option.some.inj h).symm⟩
  · exact absurd h (by simp)

/-- **What a move leaves**: the thing in the target, nothing in the source, the rest as it was. -/
theorem holder_move {o o' : Occupancy β τ} {m : Move β τ} (h : o.move m = some o') (b : β) :
    o'.holder b
      = if b = m.source then none else if b = m.target then some m.thing else o.holder b := by
  obtain ⟨hsource, htarget, rfl⟩ := move_eq_some h
  show o.holder (Equiv.swap m.source m.target b) = _
  by_cases hs : b = m.source
  · rw [if_pos hs, hs, Equiv.swap_apply_left, htarget]
  · rw [if_neg hs]
    by_cases ht : b = m.target
    · rw [if_pos ht, ht, Equiv.swap_apply_right, hsource]
    · rw [if_neg ht, Equiv.swap_apply_of_ne_of_ne hs ht]

/-- The moves, as a system. -/
def moves (β τ : Type) [DecidableEq β] [DecidableEq τ] : System (Occupancy β τ) (Move β τ) where
  init := fun _ => True
  step := move

/--
**Moves rearrange.** After a run every place holds what some place held before,
and each place is that place for one.
-/
theorem run_perm {o o' : Occupancy β τ} {ms : List (Move β τ)}
    (h : (moves β τ).run o ms = some o') :
    ∃ π : Equiv.Perm β, ∀ b, o'.holder b = o.holder (π b) := by
  refine System.run_induction (P := fun _ o' => ∃ π : Equiv.Perm β,
    ∀ b, o'.holder b = o.holder (π b)) ⟨Equiv.refl β, fun _ => rfl⟩ ?_ h
  intro _ o₁ m o₂ _ ih hstep
  obtain ⟨π, hπ⟩ := ih
  obtain ⟨_, _, rfl⟩ := move_eq_some hstep
  exact ⟨(Equiv.swap m.source m.target).trans π, fun b => hπ (Equiv.swap m.source m.target b)⟩

/-- What stands somewhere stands in exactly one place after a run. -/
theorem run_unique_place {o o' : Occupancy β τ} {ms : List (Move β τ)}
    (h : (moves β τ).run o ms = some o') {b : β} {t : τ} (hb : o.holder b = some t) :
    ∃! b', o'.holder b' = some t := by
  obtain ⟨π, hπ⟩ := run_perm h
  refine o'.unique_place (b := π.symm b) ?_
  rw [hπ, Equiv.apply_symm_apply]
  exact hb

end Occupancy
