import MobaDisplay.Page.Websocket

/-!
# What each handler leaves alone

Every handler writes one part of the page: `setTrain` and `moveTrain` the labels,
`controlSwitch` the graphics, `storeTrains` the table. Said as `Keeps` rules, so
that a property of the other parts follows whether or not the handler is cut short.
-/

namespace MobaDisplay

open Js Script

variable {P : Page → Prop}

theorem keeps_read (v : JsValue) (name : String) : Keeps P (read v name) := keeps_ofExcept _

theorem keeps_forItems {data : JsValue} {body : JsValue → Handler}
    (h : ∀ item, Keeps P (body item)) : Keeps P (forItems data body) := by
  refine keeps_bind (keeps_ofExcept _) ?_
  intro items
  exact keeps_forOf (fun item _ => h item)

theorem keeps_setTrain {blockId trainId : JsValue}
    (h : ∀ p id text, P p → P { p with svg := p.svg.text id text }) :
    Keeps P (setTrain blockId trainId) := by
  refine keeps_bind keeps_get ?_
  intro page
  refine keeps_bind (keeps_read _ _) ?_
  intro direction
  refine keeps_bind (keeps_read _ _) ?_
  intro address
  exact keeps_modify (fun p hp => h p _ _ hp)

theorem keeps_showBlocks {data : JsValue}
    (h : ∀ p id text, P p → P { p with svg := p.svg.text id text }) :
    Keeps P (showBlocks data) := by
  refine keeps_forItems ?_
  intro item
  refine keeps_bind (keeps_read _ _) ?_
  intro trainId
  split
  · exact keeps_bind (keeps_read _ _) (fun _ => keeps_setTrain h)
  · exact keeps_pure _

theorem keeps_controlSwitch {id position : JsValue}
    (h : ∀ p s g on, P p → P { p with svg := p.svg.setVisible s g on }) :
    Keeps P (controlSwitch id position) := by
  refine keeps_modify ?_
  intro p hp
  have h1 := h p id.toText .bend1 false hp
  have h2 := h _ id.toText .straight1 false h1
  have h3 := h _ id.toText .bend2 false h2
  have hidden := h _ id.toText .straight2 false h3
  dsimp only
  split
  · exact h _ _ _ true hidden
  · exact hidden

theorem keeps_showSwitches {data : JsValue}
    (h : ∀ p s g on, P p → P { p with svg := p.svg.setVisible s g on }) :
    Keeps P (showSwitches data) := by
  refine keeps_forItems ?_
  intro item
  refine keeps_bind (keeps_read _ _) ?_
  intro id
  exact keeps_bind (keeps_read _ _) (fun _ => keeps_controlSwitch h)

theorem keeps_storeTrains {data : JsValue}
    (h : ∀ p k item, P p →
      P { p with trains := fun k' => if k' = k then some item else p.trains k' }) :
    Keeps P (storeTrains data) := by
  refine keeps_forItems ?_
  intro item
  refine keeps_bind (keeps_read _ _) ?_
  intro id
  exact keeps_bind (keeps_modify (fun p hp => h p _ item hp)) (fun _ => keeps_throw _)

theorem keeps_moveTrain {data : JsValue}
    (h : ∀ p id text, P p → P { p with svg := p.svg.text id text }) :
    Keeps P (moveTrain data) := by
  refine keeps_bind (keeps_read _ _) ?_
  intro toBlock
  refine keeps_bind (keeps_read _ _) ?_
  intro trainId
  refine keeps_bind (keeps_setTrain h) ?_
  intro _
  refine keeps_bind (keeps_read _ _) ?_
  intro fromBlock
  exact keeps_modify (fun p hp => h p _ _ hp)

/-- A property of the parts no control message writes. -/
theorem keeps_handleControlMessages {msgId data : JsValue}
    (htext : ∀ p id text, P p → P { p with svg := p.svg.text id text })
    (hvisible : ∀ p s g on, P p → P { p with svg := p.svg.setVisible s g on })
    (htrains : ∀ p k item, P p →
      P { p with trains := fun k' => if k' = k then some item else p.trains k' }) :
    Keeps P (handleControlMessages msgId data) := by
  unfold handleControlMessages
  split
  · exact keeps_bind (keeps_showBlocks htext) (fun _ => keeps_showSwitches hvisible)
  · split
    · exact keeps_showSwitches hvisible
    · split
      · exact keeps_storeTrains htrains
      · split
        · exact keeps_moveTrain htext
        · exact keeps_pure _

/-! ## Which handler a message reaches -/

/-- A parsed message. -/
def message (groupId messageId : String) (data : JsValue) : JsValue :=
  .object [("groupId", .number groupId), ("messageId", .number messageId), ("data", data)]

theorem read_object (fields : Fields) (name : String) (p : Page) :
    (read (.object fields) name).run p = .ok (fields.field name) p := rfl

theorem onmessage_object (fields : Fields) (p : Page) :
    (onmessage (.object fields)).run p
      = (if (fields.field "groupId").isNumber "7" then
          handleSystemMessages (fields.field "messageId") (fields.field "data")
        else if (fields.field "groupId").isNumber "10" then
          handleControlMessages (fields.field "messageId") (fields.field "data")
        else pure ()).run p := by
  unfold onmessage
  rw [bind_ok (read_object fields _ p)]
  split
  · rw [bind_ok (read_object fields _ p), bind_ok (read_object fields _ p)]
  · split
    · rw [bind_ok (read_object fields _ p), bind_ok (read_object fields _ p)]
    · rfl

/-- A message that is not an object reaches no handler. -/
theorem onmessage_other {d : JsValue} (h : ∀ fields, d ≠ .object fields) (p : Page) :
    after (onmessage d) p = p := by
  cases d with
  | object fields => exact absurd rfl (h fields)
  | undefined => rfl
  | null => rfl
  | boolean b => rfl
  | number text => rfl
  | string s => rfl
  | array items => rfl

theorem onmessage_control (messageId : String) (data : JsValue) (p : Page) :
    (onmessage (message "10" messageId data)).run p
      = (handleControlMessages (.number messageId) data).run p := by
  unfold message
  rw [onmessage_object]
  rfl

end MobaDisplay
