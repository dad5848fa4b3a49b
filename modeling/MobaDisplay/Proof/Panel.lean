import MobaDisplay.Lib.ScriptPair
import MobaDisplay.Page.Control
import MobaDisplay.Proof.Emergency

/-!
# The panel and the drawing

The page has two parts. The panel is what statuses write: the badges, the notification
and the button. The drawing is what control messages write: the labels, the switches and
the table of trains. No handler reads one part to write the other, and none is kept from
its part by an exception in the other. So a page that has received any messages is, in
its panel, a page that has received the statuses alone, and in its drawing one that has
received everything else.
-/

namespace MobaDisplay

open Js Script

/-- The page with the drawing of another one. -/
def Page.withDrawing (p q : Page) : Page := { p with trains := q.trains, svg := q.svg }

def SamePanel (p q : Page) : Prop :=
  p.statusHw = q.statusHw ∧ p.statusSw = q.statusSw ∧ p.alertNotificaton = q.alertNotificaton
    ∧ p.emergencyButton = q.emergencyButton

def SameDrawing (p q : Page) : Prop := p.trains = q.trains ∧ p.svg = q.svg

theorem eq_withDrawing {p q r : Page} (hpanel : SamePanel r p) (hdrawing : SameDrawing r q) :
    r = p.withDrawing q := by
  obtain ⟨hhw, hsw, halert, hbutton⟩ := hpanel
  obtain ⟨htrains, hsvg⟩ := hdrawing
  cases r
  dsimp only at hhw hsw halert hbutton htrains hsvg
  rw [Page.withDrawing, ← hhw, ← hsw, ← halert, ← hbutton, ← htrains, ← hsvg]

/-! ## Statuses -/

/-- A message that carries a status does to the page what the status does, and nothing else. -/
theorem receive_status {d : JsValue} {s : Status} (h : Status.ofMessage d = some s) (p : Page) :
    p.receive d = handleStatus p s := by
  cases d with
  | object fields =>
      obtain ⟨⟨hgroup, hmessage⟩, hdata⟩ := Option.ite_none_right_eq_some.mp h
      unfold Page.receive
      rw [after, onmessage_object, ← after, if_pos hgroup, handleSystemMessages, if_pos hmessage,
        hdata]
      rfl
  | _ => cases h

theorem samePanel_status {p q : Page} (h : SamePanel p q) (s : Status) :
    SamePanel (handleStatus p s) (handleStatus q s) := by
  obtain ⟨-, -, -, hbutton⟩ := h
  cases s <;> exact ⟨rfl, rfl, rfl, by simp only [handleStatus, hbutton]⟩

theorem handleStatus_drawing (p : Page) (s : Status) : SameDrawing (handleStatus p s) p := by
  cases s <;> exact ⟨rfl, rfl⟩

/-! ## Everything else -/

/-- A message that carries no status. -/
def plain (d : JsValue) : Bool := (Status.ofMessage d).isNone

theorem keepsPanel_control (p : Page) {messageId data : JsValue} :
    Keeps (fun q => SamePanel q p) (handleControlMessages messageId data) :=
  keeps_handleControlMessages (fun _ _ _ h => h) (fun _ _ _ _ h => h) (fun _ _ _ h => h)

/-- It leaves the panel alone, also where its handler is cut short. -/
theorem receive_plain {d : JsValue} (h : Status.ofMessage d = none) (p : Page) :
    SamePanel (p.receive d) p := by
  have hsame : SamePanel p p := ⟨rfl, rfl, rfl, rfl⟩
  -- a message of another group, another id or an unknown status
  cases d with
  | object fields =>
      unfold Page.receive
      rw [after, onmessage_object, ← after]
      split
      · rename_i hgroup
        unfold handleSystemMessages
        split
        · rename_i hmessage
          have hdata : Status.ofData (Fields.field fields "data") = none := by
            simpa [Status.ofMessage, hgroup, hmessage] using h
          rw [hdata]
          exact hsame
        · exact hsame
      · split
        · exact keepsPanel_control p p hsame
        · exact hsame
  | _ => exact hsame

/-! Handlers that see the same drawing end alike, whatever the panels are. -/

theorem sameDrawing_svg {p q : Page} (h : SameDrawing p q) (f : Svg → Svg) :
    SameDrawing { p with svg := f p.svg } { q with svg := f q.svg } :=
  ⟨h.1, congrArg f h.2⟩

theorem agree_read (v : JsValue) (name : String) :
    Agree SameDrawing (read v name) (read v name) := agree_ofExcept _

theorem agree_forItems {data : JsValue} {body : JsValue → Handler}
    (h : ∀ item, Agree SameDrawing (body item) (body item)) :
    Agree SameDrawing (forItems data body) (forItems data body) :=
  agree_bind (agree_ofExcept _) fun items => agree_forOf h items

theorem agree_setTrain (blockId trainId : JsValue) :
    Agree SameDrawing (setTrain blockId trainId) (setTrain blockId trainId) := by
  refine agree_get_bind ?_
  intro p q h
  rw [h.1]
  refine agree_bind (agree_read _ _) ?_
  intro direction
  refine agree_bind (agree_read _ _) ?_
  intro address
  exact agree_modify fun _ _ h' => sameDrawing_svg h' fun svg => svg.text _ _

theorem agree_controlSwitch (id position : JsValue) :
    Agree SameDrawing (controlSwitch id position) (controlSwitch id position) := by
  intro p q h
  rw [controlSwitch_ok, controlSwitch_ok]
  exact .ok () (sameDrawing_svg h fun svg => { svg with
    visible := fun s g => if s = id.toText then decide (Graphic.ofPosition position = some g)
      else svg.visible s g })

theorem agree_showBlocks (data : JsValue) :
    Agree SameDrawing (showBlocks data) (showBlocks data) := by
  refine agree_forItems ?_
  intro item
  refine agree_bind (agree_read _ _) ?_
  intro trainId
  split
  · exact agree_bind (agree_read _ _) fun id => agree_setTrain id trainId
  · exact agree_pure _

theorem agree_showSwitches (data : JsValue) :
    Agree SameDrawing (showSwitches data) (showSwitches data) := by
  refine agree_forItems ?_
  intro item
  refine agree_bind (agree_read _ _) ?_
  intro id
  exact agree_bind (agree_read _ _) fun position => agree_controlSwitch id position

theorem agree_storeTrains (data : JsValue) :
    Agree SameDrawing (storeTrains data) (storeTrains data) := by
  refine agree_forItems ?_
  intro item
  refine agree_bind (agree_read _ _) ?_
  intro id
  refine agree_bind (agree_modify ?_) fun _ => agree_throw _
  intro p q h
  refine ⟨?_, h.2⟩
  dsimp only
  rw [h.1]

theorem agree_moveTrain (data : JsValue) :
    Agree SameDrawing (moveTrain data) (moveTrain data) := by
  refine agree_bind (agree_read _ _) ?_
  intro toBlock
  refine agree_bind (agree_read _ _) ?_
  intro trainId
  refine agree_bind (agree_setTrain _ _) ?_
  intro _
  refine agree_bind (agree_read _ _) ?_
  intro fromBlock
  exact agree_modify fun _ _ h => sameDrawing_svg h fun svg => svg.text _ _

theorem agree_handleControlMessages (messageId data : JsValue) :
    Agree SameDrawing (handleControlMessages messageId data)
      (handleControlMessages messageId data) := by
  unfold handleControlMessages
  split
  · exact agree_bind (agree_showBlocks data) fun _ => agree_showSwitches data
  · split
    · exact agree_showSwitches data
    · split
      · exact agree_storeTrains data
      · split
        · exact agree_moveTrain data
        · exact agree_pure _

theorem agree_handleSystemMessages (messageId data : JsValue) :
    Agree SameDrawing (handleSystemMessages messageId data)
      (handleSystemMessages messageId data) := by
  unfold handleSystemMessages
  split
  · split
    · rename_i s _
      refine agree_modify ?_
      intro p q h
      have hp := handleStatus_drawing p s
      have hq := handleStatus_drawing q s
      exact ⟨hp.1.trans (h.1.trans hq.1.symm), hp.2.trans (h.2.trans hq.2.symm)⟩
    · exact agree_pure _
  · exact agree_pure _

theorem agree_onmessage (d : JsValue) : Agree SameDrawing (onmessage d) (onmessage d) := by
  refine agree_bind (agree_read _ _) ?_
  intro groupId
  split
  · refine agree_bind (agree_read _ _) ?_
    intro messageId
    exact agree_bind (agree_read _ _) fun data => agree_handleSystemMessages messageId data
  · split
    · refine agree_bind (agree_read _ _) ?_
      intro messageId
      exact agree_bind (agree_read _ _) fun data => agree_handleControlMessages messageId data
    · exact agree_pure _

/-! ## The two parts of a page -/

theorem receiveAll_panel (msgs : List JsValue) {p q : Page} (h : SamePanel p q) :
    SamePanel (p.receiveAll msgs) ((msgs.filterMap Status.ofMessage).foldl handleStatus q) := by
  induction msgs generalizing p q with
  | nil => exact h
  | cons d msgs ih =>
      rw [Page.receiveAll_cons, List.filterMap_cons]
      cases hd : Status.ofMessage d with
      | none =>
          obtain ⟨hhw, hsw, halert, hbutton⟩ := receive_plain hd p
          exact ih ⟨hhw.trans h.1, hsw.trans h.2.1, halert.trans h.2.2.1, hbutton.trans h.2.2.2⟩
      | some s =>
          rw [receive_status hd]
          exact ih (samePanel_status h s)

theorem receiveAll_drawing (msgs : List JsValue) {p q : Page} (h : SameDrawing p q) :
    SameDrawing (p.receiveAll msgs) (q.receiveAll (msgs.filter plain)) := by
  -- both drawings stay alike; a status is dropped on the right
  induction msgs generalizing p q with
  | nil => exact h
  | cons d msgs ih =>
      rw [Page.receiveAll_cons, List.filter_cons]
      split
      · exact ih ((agree_onmessage d).after h)
      · rename_i hplain
        have hsome : ∃ s, Status.ofMessage d = some s := by
          simpa [plain, Option.isNone_iff_eq_none, Option.ne_none_iff_exists'] using hplain
        obtain ⟨s, hs⟩ := hsome
        have hsame := handleStatus_drawing p s
        rw [receive_status hs]
        exact ih ⟨hsame.1.trans h.1, hsame.2.trans h.2⟩

/--
**A page is two pages side by side**: whatever it receives, valid or not, its panel is
that of a page that received the statuses alone, and its drawing that of one that
received everything else.
-/
theorem parts_independent (p q : Page) (msgs : List JsValue) :
    (p.withDrawing q).receiveAll msgs
      = ((msgs.filterMap Status.ofMessage).foldl handleStatus p).withDrawing
          (q.receiveAll (msgs.filter plain)) := by
  have hpanel : SamePanel (p.withDrawing q) p := ⟨rfl, rfl, rfl, rfl⟩
  have hdrawing : SameDrawing (p.withDrawing q) q := ⟨rfl, rfl⟩
  exact eq_withDrawing (receiveAll_panel msgs hpanel) (receiveAll_drawing msgs hdrawing)

/-! ## What the panel shows -/

/-- The badges of hardware and software, the notification, and the colour of the button. -/
def Status.shown : Option Status → String × String × String × String
  | none => ("badge-secondary", "badge-secondary", "", "btn-secondary")
  | some .manuel => ("badge-success", "badge-warning", "manuell", "btn-danger")
  | some .emergencyStop => ("badge-danger", "badge-warning", "Notaus", "btn-success")
  | some .error => ("badge-danger", "badge-danger", "Fehler", "btn-secondary")
  | some .standby => ("badge-warning", "badge-warning", "Standby", "btn-secondary")
  | some .automatic => ("badge-success", "badge-success", "Automatic", "btn-danger")

/-- The panel shows this status and no other: one badge each, and one colour. -/
structure ShowsStatus (p : Page) (status : Option Status) : Prop where
  hardware : p.statusHw = ["badge", (Status.shown status).1]
  software : p.statusSw = ["badge", (Status.shown status).2.1]
  notification : p.alertNotificaton = (Status.shown status).2.2.1
  colour : p.emergencyButton.classes = ["btn-block", "btn-lg", "btn", (Status.shown status).2.2.2]
  enabled : p.emergencyButton.disabled = status.isNone

theorem showsStatus_handle {p : Page} {status : Option Status} (h : ShowsStatus p status)
    (s : Status) : ShowsStatus (handleStatus p s) (some s) := by
  have hcolour := h.colour
  -- from any colour to any other
  have hclasses : (handleStatus p s).emergencyButton.classes
      = ["btn-block", "btn-lg", "btn", (Status.shown (some s)).2.2.2] := by
    cases status with
    | none => cases s <;> simp [handleStatus, Button.addClass, Button.removeClass, Button.setHtml,
        Button.setMsg, Button.setDisabled, hcolour, Status.shown]
    | some before => cases before <;> cases s <;> simp [handleStatus, Button.addClass,
        Button.removeClass, Button.setHtml, Button.setMsg, Button.setDisabled, hcolour,
        Status.shown]
  cases s <;> exact ⟨rfl, rfl, rfl, hclasses, rfl⟩

theorem showsStatus_receiveAll (svg : Svg) (msgs : List JsValue) :
    ShowsStatus ((Page.loaded svg).receiveAll msgs) (lastStatus msgs) := by
  induction msgs using List.reverseRecOn with
  | nil => exact ⟨rfl, rfl, rfl, rfl, rfl⟩
  | append_singleton msgs m ih =>
      rw [Page.receiveAll_append, lastStatus_snoc, Page.receiveAll_cons, Page.receiveAll_nil]
      cases hm : Status.ofMessage m with
      | some s =>
          rw [receive_status hm]
          exact showsStatus_handle ih s
      | none =>
          obtain ⟨hhw, hsw, halert, hbutton⟩ := receive_plain hm ((Page.loaded svg).receiveAll msgs)
          exact ⟨hhw.trans ih.hardware, hsw.trans ih.software, halert.trans ih.notification,
            hbutton ▸ ih.colour, hbutton ▸ ih.enabled⟩

end MobaDisplay
