import MobaDisplay.Lib.LastWrite
import MobaDisplay.Page.Control

/-!
# What a train list leaves in the table

Behind the assignment that stores an item stands a name nothing declares, so the
first round of the loop ends in a `ReferenceError` and the loop with it. Only the
first item is ever stored.
-/

namespace MobaDisplay

open Js Script LastWrite

/-- The table a complete train list leaves: the last item of each id, and the former entries. -/
def StoresAll (p q : Page) (items : List Fields) : Prop :=
  ∀ k, q.trains k = ((last (fun item => idText item == k) items).map JsValue.object).or (p.trains k)

/-- The handler of a train list ends without an exception. -/
def EndsNormally (p : Page) (items : List Fields) : Prop :=
  thrown (onmessage (ControlMessage.trainList items).parsed) p = none

theorem endsNormally_iff (p : Page) (items : List Fields) : EndsNormally p items ↔ items = [] := by
  unfold EndsNormally
  cases items with
  | nil => exact ⟨fun _ => rfl, fun _ => thrown_ok (onmessage_trainList_nil p)⟩
  | cons item rest =>
      rw [thrown_error (onmessage_trainList_cons item rest p)]
      exact ⟨fun h => absurd h (by simp), fun h => absurd h (by simp)⟩

theorem receive_trainList_nil (p : Page) :
    p.receive (ControlMessage.trainList []).parsed = p :=
  after_ok (onmessage_trainList_nil p)

/-- **Only the first item is stored.** -/
theorem receive_trainList_cons (item : Fields) (rest : List Fields) (p : Page) :
    p.receive (ControlMessage.trainList (item :: rest)).parsed
      = p.stored (idText item) (.object item) :=
  after_error (onmessage_trainList_cons item rest p)

theorem storesAll_nil (p : Page) :
    StoresAll p (p.receive (ControlMessage.trainList []).parsed) [] := by
  intro k
  rw [receive_trainList_nil]
  rfl

/-- Storing the first item is enough where the others change nothing. -/
theorem storesAll_cons_iff (item : Fields) (rest : List Fields) (p : Page) :
    StoresAll p (p.receive (ControlMessage.trainList (item :: rest)).parsed) (item :: rest)
      ↔ ∀ k later, last (fun i => idText i == k) rest = some later →
          (p.stored (idText item) (.object item)).trains k = some (.object later) := by
  rw [receive_trainList_cons]
  refine ⟨?_, ?_⟩
  · intro h k later hlast
    have hk := h k
    rw [last_cons, hlast] at hk
    exact hk
  · intro h k
    rw [last_cons]
    cases hlast : last (fun i => idText i == k) rest with
    | some later => exact h k later hlast
    | none =>
        -- no later item: the first one stands, or the former entry does
        by_cases hk : idText item = k
        · simp [Page.stored, hk]
        · simp [Page.stored, hk, Ne.symm hk]

/--
**When a train list is stored completely.**

The handler ends normally with every item stored only for the empty list. For any
other it stores the first item and throws; the table is right all the same exactly
if, with the first item stored, it has each later id with its last item already.
-/
theorem train_list_stored_iff (p : Page) (items : List Fields) :
    (EndsNormally p items ∧ StoresAll p (p.receive (ControlMessage.trainList items).parsed) items
        ↔ items = [])
      ∧ ∀ item rest, items = item :: rest →
          (StoresAll p (p.receive (ControlMessage.trainList items).parsed) items
            ↔ ∀ k later, last (fun i => idText i == k) rest = some later →
                (p.stored (idText item) (.object item)).trains k = some (.object later)) := by
  refine ⟨?_, ?_⟩
  · refine ⟨?_, ?_⟩
    · intro h
      exact (endsNormally_iff p items).mp h.1
    · rintro rfl
      exact ⟨(endsNormally_iff p []).mpr rfl, storesAll_nil p⟩
  · rintro item rest rfl
    exact storesAll_cons_iff item rest p

/-- Of two trains the second never reaches the table. -/
theorem second_train_not_stored :
    ¬ (EndsNormally (Page.loaded ⟨fun _ => "", fun _ _ => true⟩)
          [[("id", .number "1")], [("id", .number "2")]]
        ∧ StoresAll (Page.loaded ⟨fun _ => "", fun _ _ => true⟩)
            ((Page.loaded ⟨fun _ => "", fun _ _ => true⟩).receive
              (ControlMessage.trainList [[("id", .number "1")], [("id", .number "2")]]).parsed)
            [[("id", .number "1")], [("id", .number "2")]])
      ∧ ((Page.loaded ⟨fun _ => "", fun _ _ => true⟩).receive
          (ControlMessage.trainList [[("id", .number "1")], [("id", .number "2")]]).parsed).trains "2"
        = none := by
  refine ⟨?_, rfl⟩
  intro h
  have hthrown : thrown (onmessage (ControlMessage.trainList
      [[("id", .number "1")], [("id", .number "2")]]).parsed)
        (Page.loaded ⟨fun _ => "", fun _ _ => true⟩) = some (.referenceError "cd") := rfl
  have hnone := h.1
  unfold EndsNormally at hnone
  rw [hthrown] at hnone
  exact absurd hnone (by simp)

end MobaDisplay
