import MobaDisplay.Lib.Script

/-!
# Two runs of a script

`Script.Keeps` is about one run. Here two scripts run side by side, in states that are
related, and `Script.Agree` says that they end alike: with the same value or with the
same exception, and in related states again. A script that agrees with itself sees no
difference between related states, and makes none.
-/

namespace Script

variable {ε σ α β ι : Type}

/-- Two ends of the same kind, in related states. -/
inductive Alike (R : σ → σ → Prop) : EStateM.Result ε σ α → EStateM.Result ε σ α → Prop where
  | ok (a : α) {s t : σ} (h : R s t) : Alike R (.ok a s) (.ok a t)
  | error (e : ε) {s t : σ} (h : R s t) : Alike R (.error e s) (.error e t)

/-- From related states the two scripts end alike. -/
def Agree (R : σ → σ → Prop) (c c' : EStateM ε σ α) : Prop :=
  ∀ s t, R s t → Alike R (c.run s) (c'.run t)

variable {R : σ → σ → Prop}

theorem agree_pure (a : α) : Agree R (pure a : EStateM ε σ α) (pure a) :=
  fun _ _ h => .ok a h

theorem agree_throw (e : ε) : Agree R (throw e : EStateM ε σ α) (throw e) :=
  fun _ _ h => .error e h

theorem agree_ofExcept (r : Except ε α) :
    Agree R (MonadExcept.ofExcept r : EStateM ε σ α) (MonadExcept.ofExcept r) := by
  intro s t h
  cases r with
  | ok a => exact .ok a h
  | error e => exact .error e h

theorem agree_modify {f g : σ → σ} (h : ∀ s t, R s t → R (f s) (g t)) :
    Agree R (modify f : EStateM ε σ Unit) (modify g) :=
  fun s t hst => .ok () (h s t hst)

theorem agree_bind {c c' : EStateM ε σ α} {k k' : α → EStateM ε σ β} (hc : Agree R c c')
    (hk : ∀ a, Agree R (k a) (k' a)) : Agree R (c >>= k) (c' >>= k') := by
  intro s t h
  cases hs : c.run s with
  | ok a s' =>
      have hend := hc s t h
      rw [hs] at hend
      cases ht : c'.run t with
      | ok b t' =>
          rw [ht] at hend
          cases hend with
          | ok _ hnext =>
              rw [bind_ok hs, bind_ok ht]
              exact hk a s' t' hnext
      | error e t' =>
          rw [ht] at hend
          cases hend
  | error e s' =>
      have hend := hc s t h
      rw [hs] at hend
      cases ht : c'.run t with
      | ok b t' =>
          rw [ht] at hend
          cases hend
      | error e' t' =>
          rw [ht] at hend
          cases hend with
          | error _ hnext =>
              rw [bind_error hs, bind_error ht]
              exact .error e hnext

/-- What is read of the states may differ, as long as what is done with it does not. -/
theorem agree_get_bind {k k' : σ → EStateM ε σ β} (h : ∀ s t, R s t → Agree R (k s) (k' t)) :
    Agree R (get >>= k) (get >>= k') := by
  intro s t hst
  rw [bind_ok (show (get : EStateM ε σ σ).run s = .ok s s from rfl),
    bind_ok (show (get : EStateM ε σ σ).run t = .ok t t from rfl)]
  exact h s t hst s t hst

theorem agree_forOf {body : ι → EStateM ε σ Unit} (h : ∀ x, Agree R (body x) (body x))
    (xs : List ι) : Agree R (forOf body xs) (forOf body xs) := by
  induction xs with
  | nil => exact agree_pure ()
  | cons x xs ih => exact agree_bind (h x) fun _ => ih

/-- Related states stay related, whether the scripts end or are cut short. -/
theorem Agree.after {c c' : EStateM ε σ α} (h : Agree R c c') {s t : σ} (hst : R s t) :
    R (after c s) (after c' t) := by
  have hend := h s t hst
  unfold Script.after
  cases hs : c.run s with
  | ok a s' =>
      rw [hs] at hend
      cases ht : c'.run t with
      | ok b t' =>
          rw [ht] at hend
          cases hend with
          | ok _ hnext => exact hnext
      | error e t' =>
          rw [ht] at hend
          cases hend
  | error e s' =>
      rw [hs] at hend
      cases ht : c'.run t with
      | ok b t' =>
          rw [ht] at hend
          cases hend
      | error e' t' =>
          rw [ht] at hend
          cases hend with
          | error _ hnext => exact hnext

end Script
