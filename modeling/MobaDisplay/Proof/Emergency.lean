import MobaDisplay.Lib.Transition
import MobaDisplay.Page.Frame

/-!
# What a click on the emergency button sends

Three of the five statuses write label and message of the button, all five enable
it. So what a click sends depends on two facts about the history: the last status,
which says what *should* be sent, and the last status that wrote something, which
says what *is* sent. They agree unless `ERROR` or `STANDBY` arrives on top of an
emergency stop, or before anything else.
-/

namespace MobaDisplay

open Js Script

/-- The status a message carries, if it is a `(7, 5)` message with one of the five. -/
def Status.ofMessage : JsValue → Option Status
  | .object fields =>
      if (Fields.field fields "groupId").isNumber "7"
          ∧ (Fields.field fields "messageId").isNumber "5" then
        Status.ofData (Fields.field fields "data")
      else none
  | _ => none

/-- The statuses that write label and message of the button. -/
def Status.writesMsg : Status → Bool
  | manuel => true
  | emergencyStop => true
  | error => false
  | standby => false
  | automatic => true

/-- The last recognised status of a history. -/
def lastStatus (msgs : List JsValue) : Option Status := (msgs.filterMap Status.ofMessage).getLast?

/-- The last status of a history that wrote the button's message. -/
def lastWriter (msgs : List JsValue) : Option Status :=
  ((msgs.filterMap Status.ofMessage).filter Status.writesMsg).getLast?

/--
What a click sends is right for the last status: a release with the label `Freigabe`
after an emergency stop, an emergency stop with the label `Notaus` after anything else.
-/
def ClickSafe (b : Button) (last : Option Status) : Prop :=
  ∀ sent, b.click = some sent →
    if last = some .emergencyStop then sent = "7#2#false" ∧ b.html = "Freigabe"
    else sent = "7#2#true" ∧ b.html = "Notaus"

/-- `ERROR` and `STANDBY` come only after `MANUEL` or `AUTOMATIC` set the button up. -/
def GreyAfterRed (before : List JsValue) (m : JsValue) : Prop :=
  Status.ofMessage m = some .error ∨ Status.ofMessage m = some .standby →
    lastWriter before = some .manuel ∨ lastWriter before = some .automatic

/-! ## The button after a history -/

theorem lastStatus_snoc (msgs : List JsValue) (m : JsValue) :
    lastStatus (msgs ++ [m]) = (Status.ofMessage m).or (lastStatus msgs) := by
  unfold lastStatus
  rw [List.filterMap_append]
  cases h : Status.ofMessage m <;> simp [h]

theorem lastWriter_snoc (msgs : List JsValue) (m : JsValue) :
    lastWriter (msgs ++ [m])
      = ((Status.ofMessage m).filter Status.writesMsg).or (lastWriter msgs) := by
  unfold lastWriter
  rw [List.filterMap_append, List.filter_append]
  cases h : Status.ofMessage m with
  | none => simp [h]
  | some s => cases hs : s.writesMsg <;> simp [h, hs, Option.filter]

/-- One message acts on the button through its status alone. -/
theorem receive_emergencyButton (p : Page) (d : JsValue) :
    (p.receive d).emergencyButton
      = match Status.ofMessage d with
        | some s => (handleStatus p s).emergencyButton
        | none => p.emergencyButton := by
  by_cases hobj : ∃ fields : Fields, d = .object fields
  · obtain ⟨fields, rfl⟩ := hobj
    unfold Page.receive
    rw [after, onmessage_object, ← after]
    simp only [Status.ofMessage]
    by_cases h7 : (fields.field "groupId").isNumber "7" = true
    · rw [if_pos h7, handleSystemMessages]
      by_cases h5 : (fields.field "messageId").isNumber "5" = true
      · rw [if_pos h5, if_pos ⟨h7, h5⟩]
        cases Status.ofData (fields.field "data") <;> rfl
      · rw [if_neg h5, if_neg (fun h => h5 h.2)]
        rfl
    · -- no other message touches the button
      have keep : Keeps (fun q => q.emergencyButton = p.emergencyButton)
          (handleControlMessages (fields.field "messageId") (fields.field "data")) :=
        keeps_handleControlMessages (fun _ _ _ h => h) (fun _ _ _ _ h => h) (fun _ _ _ h => h)
      have hnot : ¬ ((fields.field "groupId").isNumber "7" = true
          ∧ (fields.field "messageId").isNumber "5" = true) := fun h => h7 h.1
      rw [if_neg h7]
      simp only [if_neg hnot]
      by_cases h10 : (fields.field "groupId").isNumber "10" = true
      · rw [if_pos h10]
        exact keep p rfl
      · rw [if_neg h10]
        rfl
  · have hd : ∀ fields, d ≠ .object fields := fun fields he => hobj ⟨fields, he⟩
    have hs : Status.ofMessage d = none := by
      cases d with
      | object fields => exact absurd rfl (hd fields)
      | _ => rfl
    unfold Page.receive
    rw [onmessage_other hd, hs]

/-- Label and message the last writer left. -/
def labelAndMsg : Option Status → String × Option String
  | none => ("Notaus", none)
  | some .emergencyStop => ("Freigabe", some "7#2#false")
  | some _ => ("Notaus", some "7#2#true")

/-- **The invariant of the button**, over the whole history. -/
structure ButtonInv (msgs : List JsValue) (b : Button) : Prop where
  /-- Label and message are those of the last writer. -/
  written : (b.html, b.msg) = labelAndMsg (lastWriter msgs)
  /-- The button is enabled once a status was recognised. -/
  enabled : b.disabled = (lastStatus msgs).isNone
  /-- A writer is a recognised status. -/
  writer : lastStatus msgs = none → lastWriter msgs = none

theorem buttonInv_loaded (svg : Svg) : ButtonInv [] (Page.loaded svg).emergencyButton :=
  ⟨rfl, rfl, fun _ => rfl⟩

theorem buttonInv_receive {msgs : List JsValue} {p : Page} (h : ButtonInv msgs p.emergencyButton)
    (m : JsValue) : ButtonInv (msgs ++ [m]) (p.receive m).emergencyButton := by
  rw [receive_emergencyButton]
  cases hs : Status.ofMessage m with
  | none =>
      refine ⟨?_, ?_, ?_⟩
      · rw [lastWriter_snoc, hs]; exact h.written
      · rw [lastStatus_snoc, hs]; exact h.enabled
      · rw [lastStatus_snoc, lastWriter_snoc, hs]; exact h.writer
  | some s =>
      refine ⟨?_, ?_, ?_⟩
      · rw [lastWriter_snoc, hs]
        cases s with
        | manuel => rfl
        | emergencyStop => rfl
        | error => exact h.written
        | standby => exact h.written
        | automatic => rfl
      · rw [lastStatus_snoc, hs]
        cases s <;> rfl
      · rw [lastStatus_snoc, hs]
        intro hnone
        exact absurd hnone (by simp)

theorem buttonInv_receiveAll (svg : Svg) (msgs : List JsValue) :
    ButtonInv msgs ((Page.loaded svg).receiveAll msgs).emergencyButton := by
  induction msgs using List.reverseRecOn with
  | nil => exact buttonInv_loaded svg
  | append_singleton msgs m ih =>
      rw [Page.receiveAll_append]
      exact buttonInv_receive ih m

/-- The last recognised status wrote the message, unless it is one of the grey ones. -/
theorem lastWriter_of_lastStatus {msgs : List JsValue} {s : Status} (h : lastStatus msgs = some s)
    (hs : s.writesMsg = true) : lastWriter msgs = some s := by
  induction msgs using List.reverseRecOn with
  | nil => exact absurd h (by simp [lastStatus])
  | append_singleton msgs m ih =>
      rw [lastStatus_snoc] at h
      rw [lastWriter_snoc]
      cases hm : Status.ofMessage m with
      | none =>
          rw [hm] at h
          exact ih h
      | some s' =>
          rw [hm] at h
          obtain rfl := Option.some.inj h
          simp [Option.filter, hs]

theorem writesMsg_of_lastWriter {msgs : List JsValue} {s : Status} (h : lastWriter msgs = some s) :
    s.writesMsg = true :=
  (List.mem_filter.mp (List.mem_of_getLast? h)).2

/-- A button that was left red is one `MANUEL` or `AUTOMATIC` wrote. -/
theorem labelAndMsg_red_iff {writer : Option Status}
    (hwriter : ∀ w, writer = some w → w.writesMsg = true) :
    ((labelAndMsg writer).2.getD "undefined" = "7#2#true" ∧ (labelAndMsg writer).1 = "Notaus")
      ↔ writer = some .manuel ∨ writer = some .automatic := by
  cases writer with
  | none => simp [labelAndMsg]
  | some w =>
      have hwrites := hwriter w rfl
      cases w with
      | manuel => simp [labelAndMsg]
      | emergencyStop => simp [labelAndMsg]
      | automatic => simp [labelAndMsg]
      | error => exact absurd hwrites (by simp [Status.writesMsg])
      | standby => exact absurd hwrites (by simp [Status.writesMsg])

/-! ## When a click is right -/

/-- The last status is grey only on top of a red button. -/
def StateOk (msgs : List JsValue) : Prop :=
  lastStatus msgs = some .error ∨ lastStatus msgs = some .standby →
    lastWriter msgs = some .manuel ∨ lastWriter msgs = some .automatic

/-- **One state.** What a click sends is right exactly if a grey status found a red button. -/
theorem clickSafe_iff {msgs : List JsValue} {b : Button} (h : ButtonInv msgs b) :
    ClickSafe b (lastStatus msgs) ↔ StateOk msgs := by
  have hw := h.written
  have he := h.enabled
  cases hlast : lastStatus msgs with
  | none =>
      -- nothing recognised: the button is disabled and sends nothing
      rw [hlast] at he
      refine ⟨?_, ?_⟩
      · intro _ hgrey
        rw [hlast] at hgrey
        exact absurd hgrey (by simp)
      · intro _ sent hsent
        rw [Button.click, he] at hsent
        exact absurd hsent (by simp)
  | some s =>
      rw [hlast] at he
      have hclick : b.click = some (b.msg.getD "undefined") := by
        unfold Button.click
        rw [he]
        rfl
      have hsafe : ClickSafe b (some s) ↔
          if s = .emergencyStop then b.msg.getD "undefined" = "7#2#false" ∧ b.html = "Freigabe"
          else b.msg.getD "undefined" = "7#2#true" ∧ b.html = "Notaus" := by
        simp only [ClickSafe, hclick, Option.some.injEq, forall_eq']
      rw [hsafe, StateOk, hlast]
      have hhtml : b.html = (labelAndMsg (lastWriter msgs)).1 := by rw [← hw]
      have hmsg : b.msg = (labelAndMsg (lastWriter msgs)).2 := by rw [← hw]
      rw [hhtml, hmsg]
      by_cases hwrites : s.writesMsg = true
      · -- a status that writes the message is also the last writer
        rw [lastWriter_of_lastStatus hlast hwrites]
        cases s with
        | manuel => simp [labelAndMsg]
        | emergencyStop => simp [labelAndMsg]
        | automatic => simp [labelAndMsg]
        | error => exact absurd hwrites (by simp [Status.writesMsg])
        | standby => exact absurd hwrites (by simp [Status.writesMsg])
      · -- a grey status leaves what the last writer wrote
        have hred := labelAndMsg_red_iff
          (fun w (hwriter : lastWriter msgs = some w) => writesMsg_of_lastWriter hwriter)
        cases s with
        | manuel => exact absurd rfl hwrites
        | emergencyStop => exact absurd rfl hwrites
        | automatic => exact absurd rfl hwrites
        | error => simpa using hred
        | standby => simpa using hred

theorem stateOk_nil : StateOk [] := by
  intro hgrey
  exact absurd hgrey (by simp [lastStatus])

theorem stateOk_snoc (msgs : List JsValue) (m : JsValue) (h : StateOk msgs) :
    StateOk (msgs ++ [m]) ↔ GreyAfterRed msgs m := by
  unfold StateOk GreyAfterRed
  rw [lastStatus_snoc, lastWriter_snoc]
  cases Status.ofMessage m with
  | none =>
      refine ⟨?_, ?_⟩
      · intro _ hgrey
        exact absurd hgrey (by simp)
      · intro _
        exact h
  | some s => cases s <;> simp [Option.filter, Status.writesMsg]

/--
**When the emergency button is safe.**

In every state of a run a click sends what the last status asks for, exactly if in
every step of the run `ERROR` and `STANDBY` find a button that `MANUEL` or
`AUTOMATIC` wrote last.
-/
theorem emergency_safe_iff (svg : Svg) (msgs : List JsValue) :
    (∀ before, before <+: msgs →
        ClickSafe ((Page.loaded svg).receiveAll before).emergencyButton (lastStatus before))
      ↔ ∀ before m, before ++ [m] <+: msgs → GreyAfterRed before m := by
  have hstate : ∀ before,
      ClickSafe ((Page.loaded svg).receiveAll before).emergencyButton (lastStatus before)
        ↔ StateOk before := fun before => clickSafe_iff (buttonInv_receiveAll svg before)
  simp only [hstate]
  exact Transition.forall_prefix_iff stateOk_nil stateOk_snoc msgs

/-- The system message `(7, 5)` with a status as its data. -/
def statusMessage (status : String) : JsValue := message "7" "5" (.string status)

def blankSvg : Svg := ⟨fun _ => "", fun _ _ => true⟩

/--
After `EMERGENCY_STOP` and then `ERROR` the button is enabled and a click still
releases the stop; after `ERROR` alone it sends the text `undefined`.
-/
theorem emergency_stop_then_error :
    ¬ (∀ msgs, ClickSafe ((Page.loaded blankSvg).receiveAll msgs).emergencyButton
        (lastStatus msgs))
      ∧ ((Page.loaded blankSvg).receiveAll
          [statusMessage "EMERGENCY_STOP", statusMessage "ERROR"]).emergencyButton.click
            = some "7#2#false"
      ∧ lastStatus [statusMessage "EMERGENCY_STOP", statusMessage "ERROR"] = some .error
      ∧ ((Page.loaded blankSvg).receiveAll [statusMessage "ERROR"]).emergencyButton.click
            = some "undefined" := by
  refine ⟨?_, rfl, rfl, rfl⟩
  intro h
  have hwrong := h [statusMessage "ERROR"] "undefined" rfl
  exact absurd hwrong (by decide)

end MobaDisplay
