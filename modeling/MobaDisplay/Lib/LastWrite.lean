import Mathlib.Data.List.Basic

/-!
# A fold in which the last write wins

Where every round of a fold either overwrites what a view shows or leaves it
alone, the view shows what the last overwriting round wrote.
-/

namespace LastWrite

variable {ι σ β : Type}

/-- The last element with a property. -/
def last (p : ι → Bool) (xs : List ι) : Option ι := (xs.filter p).getLast?

theorem last_append (p : ι → Bool) (xs ys : List ι) :
    last p (xs ++ ys) = (last p ys).or (last p xs) := by
  rw [last, List.filter_append, List.getLast?_append]
  rfl

theorem last_cons (p : ι → Bool) (x : ι) (xs : List ι) :
    last p (x :: xs) = (last p xs).or (if p x then some x else none) := by
  have h := last_append p [x] xs
  rw [List.singleton_append] at h
  rw [h]
  cases hx : p x <;> simp [last, hx]

theorem last_eq_none_iff {p : ι → Bool} {xs : List ι} :
    last p xs = none ↔ ∀ x ∈ xs, p x = false := by
  simp [last]

theorem last_eq_some {p : ι → Bool} {xs : List ι} {x : ι} (h : last p xs = some x) :
    x ∈ xs ∧ p x = true :=
  List.mem_filter.mp (List.mem_of_getLast? h)

/-- The only element with a property is the last one. -/
theorem last_eq_of_unique {p : ι → Bool} {xs : List ι} {x : ι} (hx : x ∈ xs) (hp : p x = true)
    (h : ∀ y ∈ xs, p y = true → y = x) : last p xs = some x := by
  cases hlast : last p xs with
  | none =>
      rw [last_eq_none_iff.mp hlast x hx] at hp
      exact Bool.noConfusion hp
  | some y =>
      obtain ⟨hy, hpy⟩ := last_eq_some hlast
      rw [h y hy hpy]

/-- **The last write wins.** `I` is what the rounds rely on and keep. -/
theorem foldl_view {f : σ → ι → σ} {v : σ → β} {p : ι → Bool} {val : ι → β} {I : σ → Prop}
    (h : ∀ s x, I s → v (f s x) = (if p x then val x else v s) ∧ I (f s x)) (xs : List ι) {s : σ}
    (hs : I s) : v (xs.foldl f s) = ((last p xs).map val).getD (v s) := by
  induction xs generalizing s with
  | nil => rfl
  | cons x xs ih =>
      obtain ⟨hx, hnext⟩ := h s x hs
      rw [List.foldl_cons, ih hnext, hx, last_cons]
      cases last p xs with
      | some y => rfl
      | none => cases hp : p x <;> simp

end LastWrite
