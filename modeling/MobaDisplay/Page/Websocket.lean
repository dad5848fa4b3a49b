import MobaDisplay.Lib.JsValue
import MobaDisplay.Lib.Script

/-!
# The page and its message handlers

`index.html` with `websocket.js`: what the handlers read and write of the page,
and the handlers themselves. The drawing is the loaded SVG, as a map from block
ids to the text of `#b<id> > tspan` and from switch ids to whether each of the
four graphics below `#switch_<id>` is shown. Ids stand for their texts, since that
is what the selectors are built from.

`trains` is an empty array used as a table; the keys are the texts of the train
ids. (An id that is the name of a member of arrays, such as `length`, is not one.)
-/

namespace MobaDisplay

open Js Script

/-! ## The page -/

/-- The drawings of a switch. -/
inductive Graphic where
  | bend1
  | straight1
  | bend2
  | straight2
  deriving DecidableEq

/-- The loaded SVG. -/
structure Svg where
  /-- `#b<id> > tspan` -/
  tspan : String → String
  /-- `#switch_<id> > .<graphic>` -/
  visible : String → Graphic → Bool

namespace Svg

/-- `$(svg).find('#b' + id + " > tspan").text(text)` -/
def text (svg : Svg) (id text : String) : Svg :=
  { svg with tspan := fun b => if b = id then text else svg.tspan b }

/-- `.hide()` and `.show()` of one graphic. -/
def setVisible (svg : Svg) (id : String) (graphic : Graphic) (on : Bool) : Svg :=
  { svg with visible := fun s g => if s = id ∧ g = graphic then on else svg.visible s g }

def hide (svg : Svg) (id : String) (graphic : Graphic) : Svg := svg.setVisible id graphic false

def show' (svg : Svg) (id : String) (graphic : Graphic) : Svg := svg.setVisible id graphic true

end Svg

/-- `#emergency-button`. -/
structure Button where
  classes : List String
  html : String
  /-- `data('msg')`, once something is stored there. -/
  msg : Option String
  disabled : Bool

namespace Button

def addClass (b : Button) (c : String) : Button :=
  { b with classes := if c ∈ b.classes then b.classes else b.classes ++ [c] }

def removeClass (b : Button) (cs : List String) : Button :=
  { b with classes := b.classes.filter (fun c => c ∉ cs) }

def setHtml (b : Button) (html : String) : Button := { b with html := html }

def setMsg (b : Button) (msg : String) : Button := { b with msg := some msg }

def setDisabled (b : Button) (disabled : Bool) : Button := { b with disabled := disabled }

/--
What a click sends: nothing while the button is disabled, otherwise
`data('msg')`, which `ws.send` turns into the text `undefined` if it was never set.
-/
def click (b : Button) : Option String :=
  if b.disabled then none else some (b.msg.getD "undefined")

end Button

structure Page where
  /-- `trains`, by the text of the id. -/
  trains : String → Option JsValue
  /-- The classes of `#status-hw`. -/
  statusHw : List String
  /-- The classes of `#status-sw`. -/
  statusSw : List String
  /-- `#alert-notificaton` -/
  alertNotificaton : String
  emergencyButton : Button
  svg : Svg

/-- `index.html` as it is loaded, around a given drawing. -/
def Page.loaded (svg : Svg) : Page where
  trains := fun _ => none
  statusHw := ["badge", "badge-secondary"]
  statusSw := ["badge", "badge-secondary"]
  alertNotificaton := ""
  emergencyButton := ⟨["btn-block", "btn-lg", "btn", "btn-secondary"], "Notaus", none, true⟩
  svg := svg

abbrev Handler := EStateM JsError Page Unit

/-- `v.name` -/
def read (v : JsValue) (name : String) : EStateM JsError Page JsValue :=
  MonadExcept.ofExcept (v.get name)

/-- `for (let item of data)` -/
def forItems (data : JsValue) (body : JsValue → Handler) : Handler := do
  let items ← MonadExcept.ofExcept data.iterate
  forOf body items

/-! ## `handleSystemMessages` -/

/-- The statuses the inner `switch` knows. -/
inductive Status where
  | manuel
  | emergencyStop
  | error
  | standby
  | automatic
  deriving DecidableEq

/-- The `case` a message's data selects. -/
def Status.ofData : JsValue → Option Status
  | .string "MANUEL" => some manuel
  | .string "EMERGENCY_STOP" => some emergencyStop
  | .string "ERROR" => some error
  | .string "STANDBY" => some standby
  | .string "AUTOMATIC" => some automatic
  | _ => none

def handleStatus (p : Page) : Status → Page
  | .manuel =>
      { p with
        statusHw := ["badge", "badge-success"]
        statusSw := ["badge", "badge-warning"]
        alertNotificaton := "manuell"
        emergencyButton := p.emergencyButton.addClass "btn-danger"
          |>.removeClass ["btn-success", "btn-secondary"]
          |>.setHtml "Notaus" |>.setMsg "7#2#true" |>.setDisabled false }
  | .emergencyStop =>
      { p with
        statusHw := ["badge", "badge-danger"]
        statusSw := ["badge", "badge-warning"]
        alertNotificaton := "Notaus"
        emergencyButton := p.emergencyButton.addClass "btn-success"
          |>.removeClass ["btn-danger", "btn-secondary"]
          |>.setHtml "Freigabe" |>.setMsg "7#2#false" |>.setDisabled false }
  | .error =>
      { p with
        statusHw := ["badge", "badge-danger"]
        statusSw := ["badge", "badge-danger"]
        alertNotificaton := "Fehler"
        emergencyButton := p.emergencyButton.addClass "btn-secondary"
          |>.removeClass ["btn-danger", "btn-success"] |>.setDisabled false }
  | .standby =>
      { p with
        statusHw := ["badge", "badge-warning"]
        statusSw := ["badge", "badge-warning"]
        alertNotificaton := "Standby"
        emergencyButton := p.emergencyButton.addClass "btn-secondary"
          |>.removeClass ["btn-danger", "btn-success"] |>.setDisabled false }
  | .automatic =>
      { p with
        statusHw := ["badge", "badge-success"]
        statusSw := ["badge", "badge-success"]
        alertNotificaton := "Automatic"
        emergencyButton := p.emergencyButton.addClass "btn-danger"
          |>.removeClass ["btn-success", "btn-secondary"]
          |>.setHtml "Notaus" |>.setMsg "7#2#true" |>.setDisabled false }

def handleSystemMessages (msgId data : JsValue) : Handler :=
  if msgId.isNumber "5" then
    match Status.ofData data with
    | some status => modify (fun p => handleStatus p status)
    | none => pure ()
  else
    pure ()

/-! ## `handleControlMessages` -/

/-- The graphic the `switch` of `controlSwitch` shows. -/
def Graphic.ofPosition : JsValue → Option Graphic
  | .string "STRAIGHT_1" => some straight1
  | .string "BEND_1" => some bend1
  | .string "STRAIGHT_2" => some straight2
  | .string "BEND_2" => some bend2
  | _ => none

/-- Hide all four, then show the one the position names. -/
def controlSwitch (id position : JsValue) : Handler :=
  modify fun p =>
    let hidden := p.svg.hide id.toText .bend1 |>.hide id.toText .straight1
      |>.hide id.toText .bend2 |>.hide id.toText .straight2
    match Graphic.ofPosition position with
    | some graphic => { p with svg := hidden.show' id.toText graphic }
    | none => { p with svg := hidden }

/-- The text of the block a train stands in. -/
def trainLabel (direction address : JsValue) : String :=
  if direction.isString "FORWARD" then address.toText ++ " >>" else address.toText ++ " <<"

def setTrain (blockId trainId : JsValue) : Handler := do
  let p ← get
  let train := (p.trains trainId.toText).getD .undefined
  let direction ← read train "direction"
  let address ← read train "address"
  modify fun p => { p with svg := p.svg.text blockId.toText (trainLabel direction address) }

/-- The loop of `case 2`. -/
def showBlocks (data : JsValue) : Handler :=
  forItems data fun item => do
    let trainId ← read item "trainId"
    if trainId.truthy then
      let id ← read item "id"
      setTrain id trainId

/-- The loop of `case 5`. -/
def showSwitches (data : JsValue) : Handler :=
  forItems data fun item => do
    let id ← read item "id"
    let position ← read item "switchStand"
    controlSwitch id position

/-- The loop of `case 8`; behind the assignment stands `cd`, a name nothing declares. -/
def storeTrains (data : JsValue) : Handler :=
  forItems data fun item => do
    let id ← read item "id"
    modify fun p =>
      { p with trains := fun k => if k = id.toText then some item else p.trains k }
    throw (.referenceError "cd")

/-- The body of `case 12`. -/
def moveTrain (data : JsValue) : Handler := do
  let toBlock ← read data "toBlock"
  let trainId ← read data "trainId"
  setTrain toBlock trainId
  let fromBlock ← read data "fromBlock"
  modify fun p => { p with svg := p.svg.text fromBlock.toText "" }

/-- `case 2` has no `break`: it runs on into `case 5`. -/
def handleControlMessages (msgId data : JsValue) : Handler :=
  if msgId.isNumber "2" then do
    showBlocks data
    showSwitches data
  else if msgId.isNumber "5" then
    showSwitches data
  else if msgId.isNumber "8" then
    storeTrains data
  else if msgId.isNumber "12" then
    moveTrain data
  else
    pure ()

/-! ## `ws.onmessage` -/

/-- The handler, given `JSON.parse(event.data)`. -/
def onmessage (d : JsValue) : Handler := do
  let groupId ← read d "groupId"
  if groupId.isNumber "7" then
    let messageId ← read d "messageId"
    let data ← read d "data"
    handleSystemMessages messageId data
  else if groupId.isNumber "10" then
    let messageId ← read d "messageId"
    let data ← read d "data"
    handleControlMessages messageId data

/-- The page after one message. An exception is reported to the console and goes no further. -/
def Page.receive (p : Page) (d : JsValue) : Page := after (onmessage d) p

/-- The page after a sequence of messages. -/
def Page.receiveAll (p : Page) (ds : List JsValue) : Page := ds.foldl Page.receive p

@[simp] theorem Page.receiveAll_nil (p : Page) : p.receiveAll [] = p := rfl

@[simp] theorem Page.receiveAll_cons (p : Page) (d : JsValue) (ds : List JsValue) :
    p.receiveAll (d :: ds) = (p.receive d).receiveAll ds := rfl

theorem Page.receiveAll_append (p : Page) (ds es : List JsValue) :
    p.receiveAll (ds ++ es) = (p.receiveAll ds).receiveAll es := List.foldl_append ..

end MobaDisplay
