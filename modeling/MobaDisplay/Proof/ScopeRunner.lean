import MobaDisplay.Web.ScopeRunner

/-!
# The counter is a gate

The counter of `ScopeRunner` holds how many locks there are, or -1. Seen through the
calls that return, it is the gate: `gated_step` takes a step of any thread to at most
one event of the gate, and the rest is what is known of gates.

The loops may run in vain. How often is a matter of what the other calls do: an
exchange that finds another value follows a lock, a release or a stop (`Hurried`).
-/

namespace MobaDisplay

open Transition

namespace ScopeRunner

variable {κ : Type} [DecidableEq κ]

/-- The gate behind the counter, as far as the calls have returned. -/
structure Gated (s : ScopeRunner κ) (g : Gate.State κ) : Prop where
  run : Gate.system.run Gate.start s.history = some g
  locked : ∀ j, s.calls j = .locked ↔ j ∈ g.inside
  free : g.closed = false → s.count = g.inside.length
  shut : g.closed = true → s.count = -1 ∧ g.inside = []
  stopped : ∀ j, s.calls j = .stopped → g.closed = true
  /-- The loop of `continue_lock` has been left where the counter was negative. -/
  expected : ∀ j e, s.calls j = .continuing e → 0 ≤ e

namespace Gated

variable {s : ScopeRunner κ} {g : Gate.State κ}

theorem closed_of_neg (h : Gated s g) (hneg : s.count < 0) : g.closed = true := by
  by_contra hopen
  have hcount := h.free (by simpa using hopen)
  omega

theorem open_of_nonneg (h : Gated s g) (hnonneg : 0 ≤ s.count) : g.closed = false := by
  by_contra hclosed
  have hcount := (h.shut (by simpa using hclosed)).1
  omega

theorem logged (h : Gated s g) {t : ScopeRunner κ} {e : Gate.Event κ} {g' : Gate.State κ}
    (ht : t.history = s.history ++ [e]) (hstep : Gate.step g e = some g') :
    Gate.system.run Gate.start t.history = some g' := by
  rw [ht]
  exact Gate.system.run_snoc.mpr ⟨g, h.run, hstep⟩

theorem setCall_expected (h : Gated s g) {k : κ} {c : Call}
    (hnew : ∀ e, c = .continuing e → 0 ≤ e) (j : κ) (e : Int)
    (hj : (s.setCall k c).calls j = .continuing e) : 0 ≤ e := by
  by_cases hjk : j = k
  · subst hjk
    rw [setCall_self] at hj
    exact hnew e hj
  · rw [setCall_other s c hjk] at hj
    exact h.expected j e hj

/-- A call that neither has nor gets a lock. -/
theorem setCall_locked (h : Gated s g) {k : κ} {c : Call} (hold : s.calls k ≠ .locked)
    (hnew : c ≠ .locked) (j : κ) : (s.setCall k c).calls j = .locked ↔ j ∈ g.inside := by
  by_cases hjk : j = k
  · subst hjk
    rw [setCall_self]
    exact iff_of_false hnew (fun hin => hold ((h.locked j).mpr hin))
  · rw [setCall_other s c hjk]
    exact h.locked j

theorem setCall_stopped (h : Gated s g) {k : κ} {c : Call} (hnew : c ≠ .stopped) (j : κ)
    (hj : (s.setCall k c).calls j = .stopped) : g.closed = true := by
  by_cases hjk : j = k
  · subst hjk
    rw [setCall_self] at hj
    exact absurd hj hnew
  · rw [setCall_other s c hjk] at hj
    exact h.stopped j hj

end Gated

omit [DecidableEq κ] in
theorem Reads.not_locked {s : ScopeRunner κ} {k : κ} {failed : List κ} (h : s.Reads k failed) :
    s.calls k ≠ .locked := by
  rcases h with ⟨hcall, -⟩ | ⟨expected, hcall, -⟩
  · simp [hcall]
  · simp [hcall]

theorem gated_step {s s' : ScopeRunner κ} {g : Gate.State κ} (h : Gated s g)
    (hstep : Steps s s') : ∃ g', Gated s' g' := by
  -- one step of a call is one event of the gate, or none
  cases hstep with
  | @continuing k failed hreads hfree =>
      refine ⟨g, h.run, h.setCall_locked hreads.not_locked (by simp), h.free, h.shut,
        h.setCall_stopped (by simp), h.setCall_expected ?_⟩
      rintro e ⟨⟩
      exact hfree
  | @null k failed hreads hneg =>
      have hclosed : g.closed = true := h.closed_of_neg hneg
      exact ⟨g, h.logged rfl (by simp [Gate.step, hclosed]),
        h.setCall_locked hreads.not_locked (by simp), h.free, h.shut,
        h.setCall_stopped (by simp), h.setCall_expected (by simp)⟩
  | @locked k hcall =>
      -- the value that is exchanged is one the loop has found not to be negative
      have hopen : g.closed = false := h.open_of_nonneg (h.expected k _ hcall)
      have hnew : k ∉ g.inside := fun hin => by
        have hlocked := (h.locked k).mpr hin
        simp [hcall] at hlocked
      have hcount : s.count = g.inside.length := h.free hopen
      refine ⟨⟨g.closed, k :: g.inside⟩, h.logged rfl (by simp [Gate.step, hopen, hnew]),
        ?_, fun _ => ?_, fun hclosed => ?_, h.setCall_stopped (by simp),
        h.setCall_expected (by simp)⟩
      · intro j
        by_cases hjk : j = k
        · subst hjk
          simp
        · simpa [setCall, hjk] using h.locked j
      · simp [hcount]
      · simp [hopen] at hclosed
  | @destroyed k hcall =>
      have hin : k ∈ g.inside := (h.locked k).mp hcall
      have hopen : g.closed = false := by
        by_contra hclosed
        have hempty := (h.shut (by simpa using hclosed)).2
        simp [hempty] at hin
      have hcount : s.count = g.inside.length := h.free hopen
      have hpos : 0 < g.inside.length := List.length_pos_of_mem hin
      have hnodup : g.inside.Nodup := (Gate.counted_run h.run).nodup
      refine ⟨⟨g.closed, g.inside.erase k⟩, h.logged rfl (by simp [Gate.step, hin]),
        ?_, fun _ => ?_, fun hclosed => ?_, h.setCall_stopped (by simp),
        h.setCall_expected (by simp)⟩
      · intro j
        by_cases hjk : j = k
        · subst hjk
          simp [hnodup.mem_erase_iff]
        · simpa [setCall, hjk, hnodup.mem_erase_iff] using h.locked j
      · have hlen := List.length_erase_of_mem hin
        simp only [log_count, setCall_count]
        omega
      · simp [hopen] at hclosed
  | @stopping k hcall =>
      exact ⟨g, h.run, h.setCall_locked (by simp [hcall]) (by simp), h.free, h.shut,
        h.setCall_stopped (by simp), h.setCall_expected (by simp)⟩
  | @closed k hcall hzero =>
      have hopen : g.closed = false := h.open_of_nonneg (by omega)
      have hempty : g.inside = [] := by
        have hcount := h.free hopen
        exact List.length_eq_zero_iff.mp (by omega)
      exact ⟨⟨true, g.inside⟩, h.logged rfl (by simp [Gate.step, hempty]),
        h.setCall_locked (by simp [hcall]) (by simp), (by simp), fun _ => ⟨rfl, hempty⟩,
        fun _ _ => rfl, h.setCall_expected (by simp)⟩
  | @stopped k hcall hneg =>
      have hclosed : g.closed = true := h.closed_of_neg hneg
      have hempty : g.inside = [] := (h.shut hclosed).2
      exact ⟨⟨true, g.inside⟩, h.logged rfl (by simp [Gate.step, hempty]),
        h.setCall_locked (by simp [hcall]) (by simp), (by simp), fun _ => h.shut hclosed,
        fun _ _ => rfl, h.setCall_expected (by simp)⟩
  | again => exact ⟨g, h⟩

theorem gated_reachable {s : ScopeRunner κ} (h : system.Reachable s) : ∃ g, Gated s g := by
  refine System.Reachable.invariant (P := fun s => ∃ g, Gated s g) ?_ ?_ h
  · rintro s rfl
    exact ⟨Gate.start, rfl, by simp [start, Gate.start], fun _ => rfl, nofun, nofun, nofun⟩
  · rintro s a s' - ⟨g, hg⟩ hstep
    exact gated_step hg (step_steps hstep)

/--
When a call of `stop` returns, every lock that was handed out is destroyed, and no
call of `continue_lock` gets one from then on; `nullptr` is returned only after that.
Meanwhile the counter holds how many locks there are.
-/
theorem scopes_end {s : ScopeRunner κ} (h : system.Reachable s) :
    (∀ before k after, s.history = before ++ .close k :: after →
        (∀ j, before.count (.enter j) = before.count (.leave j)) ∧ ∀ j, .enter j ∉ after)
      ∧ (∀ before j after, s.history = before ++ .refuse j :: after → ∃ k, .close k ∈ before)
      ∧ (∀ k, s.calls k = .stopped → s.count = -1 ∧ ∀ j, s.calls j ≠ .locked)
      ∧ (s.count ≠ -1 → ∃ locks : List κ, locks.Nodup ∧ s.count = locks.length
          ∧ ∀ j, j ∈ locks ↔ s.calls j = .locked) := by
  obtain ⟨g, hg⟩ := gated_reachable h
  refine ⟨?_, ?_, ?_, ?_⟩
  · intro before k after hsplit
    exact Gate.run_close (g := g) (hsplit ▸ hg.run)
  · intro before j after hsplit
    exact Gate.run_refuse (g := g) (hsplit ▸ hg.run)
  · intro k hk
    obtain ⟨hcount, hempty⟩ := hg.shut (hg.stopped k hk)
    refine ⟨hcount, fun j hj => ?_⟩
    have hin := (hg.locked j).mp hj
    simp [hempty] at hin
  · intro hne
    have hopen : g.closed = false := by
      by_contra hclosed
      exact hne (hg.shut (by simpa using hclosed)).1
    exact ⟨g.inside, (Gate.counted_run hg.run).nodup, hg.free hopen, fun j => (hg.locked j).symm⟩

/-- A stop finds a handler at work and waits for it; a third call comes too late. -/
def takenApart : List (Action Nat) :=
  [.continueLock 0, .exchange 0 false, .stop 1, .exchangeStop 1 false, .destroy 0,
    .exchangeStop 1 false, .continueLock 2]

theorem scopes_end_late :
    ∃ s : ScopeRunner Nat, system.run start takenApart = some s ∧ s.calls 2 = .null
      ∧ s.count = -1 ∧ ∀ j, s.calls j ≠ .locked := by
  have hrun : system.run start takenApart = some _ := rfl
  have hend := scopes_end (System.Reachable.run (.init rfl) hrun)
  exact ⟨_, hrun, rfl, (hend.2.2.1 1 rfl).1, (hend.2.2.1 1 rfl).2⟩

/-! ## The loops -/

/-- Whether an event changes the counter under the eyes of call `k`. -/
def disturbs (k : κ) : Gate.Event κ → Bool
  | .enter j => j ≠ k
  | .leave j => j ≠ k
  | .close j => j ≠ k
  | .refuse _ => false

/-- What `k` expects is out of date. -/
def outdated (s : ScopeRunner κ) (k : κ) : Nat :=
  match s.calls k with
  | .continuing expected => if expected = s.count then 0 else 1
  | _ => 0

omit [DecidableEq κ] in
theorem outdated_le (s : ScopeRunner κ) (k : κ) : s.outdated k ≤ 1 := by
  unfold outdated
  split
  · split <;> omega
  · omega

/-- Every exchange in vain, and the next one, is answered for by a change somebody else made. -/
def Hurried (s : ScopeRunner κ) : Prop :=
  ∀ k, s.failures.count k + s.outdated k ≤ s.history.countP (disturbs k)

theorem outdated_setCall (s : ScopeRunner κ) {k : κ} {c : Call}
    (hc : ∀ e, c = .continuing e → e = s.count) : (s.setCall k c).outdated k = 0 := by
  unfold outdated
  rw [setCall_self]
  cases c with
  | continuing e => simp [hc e rfl]
  | _ => rfl

theorem outdated_other (s : ScopeRunner κ) {k j : κ} (c : Call) (hjk : j ≠ k) :
    (s.setCall k c).outdated j = s.outdated j := by
  unfold outdated
  rw [setCall_other s c hjk, setCall_count]

omit [DecidableEq κ] in
theorem outdated_congr {s t : ScopeRunner κ} (hcount : t.count = s.count)
    (hcalls : t.calls = s.calls) (k : κ) : t.outdated k = s.outdated k := by
  unfold outdated
  rw [hcount, hcalls]

/-- A read brings what `k` expects up to date, at the price of at most the failure it was. -/
theorem Hurried.read {s : ScopeRunner κ} (h : Hurried s) {k : κ} {failed : List κ}
    (hreads : s.Reads k failed) (j : κ) :
    (s.failures ++ failed).count j + (if j = k then 0 else s.outdated j)
      ≤ s.history.countP (disturbs j) := by
  have hj := h j
  rw [List.count_append]
  by_cases hjk : j = k
  · subst hjk
    rw [if_pos rfl]
    rcases hreads with ⟨-, rfl⟩ | ⟨expected, hcall, rfl | ⟨rfl, hne⟩⟩
    · simp only [List.count_nil]
      omega
    · simp only [List.count_nil]
      omega
    · have hout : s.outdated j = 1 := by
        simp [outdated, hcall, Ne.symm hne]
      simp only [List.count_singleton_self]
      omega
  · rw [if_neg hjk]
    have hnone : failed.count j = 0 := by
      rcases hreads with ⟨-, rfl⟩ | ⟨expected, -, rfl | ⟨rfl, -⟩⟩
      · rfl
      · rfl
      · exact List.count_eq_zero.mpr (by simpa using hjk)
    omega

/-- Whoever changes the counter is up to date, and has disturbed everybody else. -/
theorem Hurried.change {s t : ScopeRunner κ} (h : Hurried s) {k : κ} {e : Gate.Event κ}
    (hfail : t.failures = s.failures) (hhist : t.history = s.history ++ [e])
    (he : ∀ j, j ≠ k → disturbs j e = true) (hk : t.outdated k = 0) : Hurried t := by
  intro j
  have hj := h j
  rw [hfail, hhist, List.countP_append]
  by_cases hjk : j = k
  · subst hjk
    omega
  · have hone : [e].countP (disturbs j) = 1 := by simp [he j hjk]
    have hle := t.outdated_le j
    omega

theorem hurried_step {s s' : ScopeRunner κ} (h : Hurried s) (hstep : Steps s s') :
    Hurried s' := by
  -- a read pays for its own failure; a change is charged to everybody else
  cases hstep with
  | @continuing k failed hreads hfree =>
      intro j
      have hj := h.read hreads j
      by_cases hjk : j = k
      · subst hjk
        rw [outdated_setCall _ (by rintro e ⟨⟩; rfl)]
        simpa using hj
      · rw [outdated_other _ _ hjk,
          outdated_congr (s := s) (t := { s with failures := s.failures ++ failed }) rfl rfl]
        simpa [hjk] using hj
  | @null k failed hreads hneg =>
      intro j
      have hj := h.read hreads j
      rw [outdated_congr (log_count _ _) (log_calls _ _)]
      by_cases hjk : j = k
      · subst hjk
        rw [outdated_setCall _ (by rintro _ ⟨⟩)]
        simpa [disturbs] using hj
      · rw [outdated_other _ _ hjk,
          outdated_congr (s := s) (t := { s with failures := s.failures ++ failed }) rfl rfl]
        simpa [hjk, disturbs] using hj
  | @locked k hcall =>
      exact h.change (k := k) rfl rfl (fun j hj => by simpa [disturbs] using hj.symm)
        (outdated_setCall { s with count := s.count + 1 } (by rintro _ ⟨⟩))
  | @destroyed k hcall =>
      exact h.change (k := k) rfl rfl (fun j hj => by simpa [disturbs] using hj.symm)
        (outdated_setCall { s with count := s.count - 1 } (by rintro _ ⟨⟩))
  | @stopping k hcall =>
      intro j
      have hj := h j
      by_cases hjk : j = k
      · subst hjk
        rw [outdated_setCall _ (by rintro _ ⟨⟩)]
        simp only [setCall_failures, setCall_history]
        omega
      · rw [outdated_other _ _ hjk]
        exact hj
  | @closed k hcall hzero =>
      exact h.change (k := k) rfl rfl (fun j hj => by simpa [disturbs] using hj.symm)
        (outdated_setCall { s with count := -1 } (by rintro _ ⟨⟩))
  | @stopped k hcall hneg =>
      exact h.change (k := k) rfl rfl (fun j hj => by simpa [disturbs] using hj.symm)
        (outdated_setCall s (by rintro _ ⟨⟩))
  | again => exact h

theorem hurried_reachable {s : ScopeRunner κ} (h : system.Reachable s) : Hurried s := by
  refine System.Reachable.invariant (P := Hurried) ?_ ?_ h
  · rintro s rfl
    exact fun k => by simp [start, outdated]
  · exact fun s a s' _ hs hstep => hurried_step hs (step_steps hstep)

/-! ## The end of a stop -/

/-- What the others have to do for a call of `stop` to return. -/
def finishes (k : κ) : Action κ → Prop
  | .destroy _ => True
  | .exchangeStop j _ => j = k
  | _ => False

theorem stop_finishes {k : κ} : ∀ (n : Nat) {s : ScopeRunner κ} {g : Gate.State κ}, Gated s g →
    g.inside.length = n → s.calls k = .stopping →
    ∃ as s', system.run s as = some s' ∧ (∀ a ∈ as, finishes k a) ∧ s'.calls k = .stopped := by
  intro n
  -- on the number of locks that are still there
  induction n with
  | zero =>
      intro s g hg hlen hk
      have hempty : g.inside = [] := List.length_eq_zero_iff.mp hlen
      have hexchange : ∃ s', step s (.exchangeStop k false) = some s' ∧ s'.calls k = .stopped := by
        rcases Bool.eq_false_or_eq_true g.closed with hclosed | hopen
        · have hcount := (hg.shut hclosed).1
          exact ⟨_, by simp only [step, hk, compareExchangeWeak, hcount]; rfl, by simp⟩
        · have hcount := hg.free hopen
          rw [hempty] at hcount
          exact ⟨_, by simp only [step, hk, compareExchangeWeak, hcount]; rfl, by simp⟩
      obtain ⟨s', hs', hstopped⟩ := hexchange
      refine ⟨[.exchangeStop k false], s', ?_, by simp [finishes], hstopped⟩
      rw [System.run_cons]
      simp [system, hs']
  | succ n ih =>
      intro s g hg hlen hk
      -- whoever is inside destroys its lock
      obtain ⟨j, hj⟩ := List.exists_mem_of_length_pos (l := g.inside) (by omega)
      have hlocked : s.calls j = .locked := (hg.locked j).mpr hj
      have hkj : k ≠ j := by
        rintro rfl
        simp [hk] at hlocked
      let t := (({ s with count := s.count - 1 }.setCall j .destroyed).log (.leave j))
      have hstep : step s (.destroy j) = some t := by simp only [step, hlocked]; rfl
      obtain ⟨g', hg'⟩ := gated_step hg (step_steps hstep)
      have hshorter : g'.inside.length = n := by
        obtain ⟨g₁, hg₁, hleave⟩ := Gate.system.run_snoc.mp (show Gate.system.run Gate.start
          (s.history ++ [.leave j]) = some g' from hg'.run)
        obtain rfl := Option.some.inj (hg₁.symm.trans hg.run)
        obtain ⟨hin, rfl⟩ := Gate.step_leave hleave
        simp only [List.length_erase_of_mem hin]
        omega
      obtain ⟨as, s', hrun, has, hstopped⟩ :=
        ih hg' hshorter (by simpa [t, setCall, hkj] using hk)
      refine ⟨.destroy j :: as, s', ?_, ?_, hstopped⟩
      · rw [System.run_cons]
        simpa [system, hstep] using hrun
      · simpa [finishes] using has

/--
A call of `continue_lock` goes round again, spurious failures aside, only as often as
other calls got a lock, gave one back or ended a stop. A call of `stop` waits for the
locks and for nothing else: where they are destroyed, it returns.
-/
theorem scopes_progress {s : ScopeRunner κ} (h : system.Reachable s) (k : κ) :
    s.failures.count k ≤ s.history.countP (disturbs k)
      ∧ (s.calls k = .stopping → ∃ as s', system.run s as = some s'
          ∧ (∀ a ∈ as, finishes k a) ∧ s'.calls k = .stopped) := by
  refine ⟨Nat.le_trans (Nat.le_add_right _ _) (hurried_reachable h k), fun hk => ?_⟩
  obtain ⟨g, hg⟩ := gated_reachable h
  exact stop_finishes _ hg rfl hk

/-- Two calls read the same value, one is faster, and a stop begins. -/
def overtaken : List (Action Nat) :=
  [.continueLock 0, .continueLock 2, .exchange 2 false, .exchange 0 false, .stop 1]

theorem scopes_progress_overtaken :
    ∃ s : ScopeRunner Nat, system.run start overtaken = some s ∧ s.failures.count 0 = 1
      ∧ s.history.countP (disturbs 0) = 1
      ∧ ∃ as s', system.run s as = some s' ∧ s'.calls 1 = .stopped := by
  have hrun : system.run start overtaken = some _ := rfl
  have hreach := System.Reachable.run (.init rfl) hrun
  obtain ⟨as, s', has, -, hstopped⟩ := (scopes_progress hreach 1).2 rfl
  exact ⟨_, hrun, rfl, rfl, as, s', has, hstopped⟩

end ScopeRunner

end MobaDisplay
