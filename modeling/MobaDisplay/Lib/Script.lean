import Mathlib.Data.List.Basic

/-!
# Scripts: code that writes a state and may be cut short by an exception

A script is a computation in `EStateM`: an exception ends it, and what it wrote
before stays written. Two things are asked of such code. `Script.Keeps` says that
something survives it, whether or not it ends early, and composes along every
construct. `Script.forM_ok` is the other half: where no round of a loop throws,
the loop is a fold.
-/

namespace Script

variable {ε σ α β ι : Type}

/-- The state a script leaves, however it ends. -/
def after (c : EStateM ε σ α) (s : σ) : σ :=
  match c.run s with
  | .ok _ s' => s'
  | .error _ s' => s'

/-- The exception that ends it, if any. -/
def thrown (c : EStateM ε σ α) (s : σ) : Option ε :=
  match c.run s with
  | .ok _ _ => none
  | .error e _ => some e

theorem after_ok {c : EStateM ε σ α} {s s' : σ} {a : α} (h : c.run s = .ok a s') :
    after c s = s' := by
  unfold after
  rw [h]

theorem after_error {c : EStateM ε σ α} {s s' : σ} {e : ε} (h : c.run s = .error e s') :
    after c s = s' := by
  unfold after
  rw [h]

theorem thrown_ok {c : EStateM ε σ α} {s s' : σ} {a : α} (h : c.run s = .ok a s') :
    thrown c s = none := by
  unfold thrown
  rw [h]

theorem thrown_error {c : EStateM ε σ α} {s s' : σ} {e : ε} (h : c.run s = .error e s') :
    thrown c s = some e := by
  unfold thrown
  rw [h]

/-! ## Sequencing -/

theorem bind_ok {c : EStateM ε σ α} {k : α → EStateM ε σ β} {s s' : σ} {a : α}
    (h : c.run s = .ok a s') : (c >>= k).run s = (k a).run s' := by
  show EStateM.bind c k s = k a s'
  rw [EStateM.bind, show c s = .ok a s' from h]

theorem bind_error {c : EStateM ε σ α} {k : α → EStateM ε σ β} {s s' : σ} {e : ε}
    (h : c.run s = .error e s') : (c >>= k).run s = .error e s' := by
  show EStateM.bind c k s = .error e s'
  rw [EStateM.bind, show c s = .error e s' from h]

theorem modify_ok (f : σ → σ) (s : σ) :
    (modify f : EStateM ε σ Unit).run s = .ok () (f s) := rfl

theorem ofExcept_ok (a : α) (s : σ) :
    (MonadExcept.ofExcept (.ok a) : EStateM ε σ α).run s = .ok a s := rfl

theorem ofExcept_error (e : ε) (s : σ) :
    (MonadExcept.ofExcept (.error e) : EStateM ε σ α).run s = .error e s := rfl

theorem throw_error (e : ε) (s : σ) : (throw e : EStateM ε σ α).run s = .error e s := rfl

theorem tryCatch_ok {c : EStateM ε σ α} {handle : ε → EStateM ε σ α} {s s' : σ} {a : α}
    (h : c.run s = .ok a s') : (tryCatch c handle).run s = .ok a s' := by
  show EStateM.tryCatch c handle s = .ok a s'
  rw [EStateM.tryCatch, show c s = .ok a s' from h]

/-- A handler goes on with what was written before the exception. -/
theorem tryCatch_error {c : EStateM ε σ α} {handle : ε → EStateM ε σ α} {s s' : σ} {e : ε}
    (h : c.run s = .error e s') : (tryCatch c handle).run s = (handle e).run s' := by
  show EStateM.tryCatch c handle s = handle e s'
  rw [EStateM.tryCatch, show c s = .error e s' from h]
  rfl

/-! ## What survives a script -/

/-- `P` survives `c`, whether `c` ends or is cut short. -/
def Keeps (P : σ → Prop) (c : EStateM ε σ α) : Prop := ∀ s, P s → P (after c s)

variable {P : σ → Prop}

theorem keeps_pure (a : α) : Keeps P (pure a : EStateM ε σ α) := fun _ hs => hs

theorem keeps_throw (e : ε) : Keeps P (throw e : EStateM ε σ α) := fun _ hs => hs

theorem keeps_ofExcept (r : Except ε α) : Keeps P (MonadExcept.ofExcept r : EStateM ε σ α) := by
  intro s hs
  cases r with
  | ok a => exact hs
  | error e => exact hs

theorem keeps_modify {f : σ → σ} (h : ∀ s, P s → P (f s)) :
    Keeps P (modify f : EStateM ε σ Unit) := fun s hs => h s hs

theorem keeps_get : Keeps P (get : EStateM ε σ σ) := fun _ hs => hs

theorem keeps_bind {c : EStateM ε σ α} {k : α → EStateM ε σ β} (hc : Keeps P c)
    (hk : ∀ a, Keeps P (k a)) : Keeps P (c >>= k) := by
  intro s hs
  have h := hc s hs
  cases hr : c.run s with
  | ok a s' =>
      rw [after_ok hr] at h
      have hnext := hk a s' h
      rwa [after, bind_ok hr, ← after]
  | error e s' =>
      rw [after_error hr] at h
      rwa [after_error (bind_error hr)]

/-! ## Loops -/

/-- `for (let x of xs) body` -/
def forOf (body : ι → EStateM ε σ Unit) : List ι → EStateM ε σ Unit
  | [] => pure ()
  | x :: xs => do
      body x
      forOf body xs

theorem forOf_append (body : ι → EStateM ε σ Unit) (xs ys : List ι) :
    forOf body (xs ++ ys) = (do forOf body xs; forOf body ys) := by
  induction xs with
  | nil => rfl
  | cons x xs ih =>
      rw [List.cons_append, forOf, forOf, ih]
      simp only [bind_assoc]

theorem forOf_map (body : ι → EStateM ε σ Unit) (g : β → ι) (xs : List β) :
    forOf body (xs.map g) = forOf (fun x => body (g x)) xs := by
  induction xs with
  | nil => rfl
  | cons x xs ih => rw [List.map_cons, forOf, forOf, ih]

theorem keeps_forOf {body : ι → EStateM ε σ Unit} {xs : List ι}
    (h : ∀ x ∈ xs, Keeps P (body x)) : Keeps P (forOf body xs) := by
  induction xs with
  | nil => exact keeps_pure _
  | cons x xs ih =>
      have hfirst : Keeps P (body x) := h x (by simp)
      have hrest : Keeps P (forOf body xs) := ih (fun y hy => h y (List.mem_cons_of_mem _ hy))
      exact keeps_bind hfirst (fun _ => hrest)

/--
**A loop no round of which throws is a fold.** `I` is what the rounds rely on and
keep, such as a table they only read.
-/
theorem forOf_ok {I : σ → Prop} {body : ι → EStateM ε σ Unit} {f : σ → ι → σ} :
    ∀ {xs : List ι}, (∀ x ∈ xs, ∀ s, I s → (body x).run s = .ok () (f s x) ∧ I (f s x)) →
      ∀ {s : σ}, I s → (forOf body xs).run s = .ok () (xs.foldl f s) ∧ I (xs.foldl f s) := by
  intro xs
  induction xs with
  | nil =>
      intro _ s hs
      exact ⟨rfl, hs⟩
  | cons x xs ih =>
      intro h s hs
      obtain ⟨hx, hI⟩ := h x (by simp) s hs
      have hrest : ∀ y ∈ xs, ∀ s, I s → (body y).run s = .ok () (f s y) ∧ I (f s y) := by
        intro y hy
        exact h y (List.mem_cons_of_mem _ hy)
      unfold forOf
      rw [bind_ok hx, List.foldl_cons]
      exact ih hrest hI

/-- A loop stops at the first round that throws. -/
theorem forOf_error {I : σ → Prop} {body : ι → EStateM ε σ Unit} {f : σ → ι → σ}
    {xs ys : List ι} {x : ι} {e : ε} {s s' : σ}
    (h : ∀ x ∈ xs, ∀ s, I s → (body x).run s = .ok () (f s x) ∧ I (f s x)) (hs : I s)
    (hx : (body x).run (xs.foldl f s) = .error e s') :
    (forOf body (xs ++ x :: ys)).run s = .error e s' := by
  have hbefore : (forOf body xs).run s = .ok () (xs.foldl f s) := (forOf_ok h hs).1
  rw [forOf_append, bind_ok hbefore, forOf, bind_error hx]

/-- Where not every round goes through, there is a first one that does not. -/
theorem exists_first_not {p : ι → Bool} {xs : List ι} (h : ¬ ∀ x ∈ xs, p x = true) :
    ∃ before x rest, xs = before ++ x :: rest ∧ (∀ y ∈ before, p y = true) ∧ p x = false := by
  induction xs with
  | nil => exact absurd (by simp) h
  | cons x xs ih =>
      cases hx : p x with
      | false => exact ⟨[], x, xs, rfl, by simp, hx⟩
      | true =>
          have hrest : ¬ ∀ y ∈ xs, p y = true := by
            intro hall
            apply h
            intro y hy
            rcases List.mem_cons.mp hy with rfl | hy'
            · exact hx
            · exact hall y hy'
          obtain ⟨before, y, rest, rfl, hbefore, hy⟩ := ih hrest
          refine ⟨x :: before, y, rest, rfl, ?_, hy⟩
          intro z hz
          rcases List.mem_cons.mp hz with rfl | hz'
          · exact hx
          · exact hbefore z hz'

end Script
