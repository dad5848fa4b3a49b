import MobaDisplay.Page.Frame

/-!
# Control messages, and what their handlers compute

The messages of group 10 the page knows, as they arrive: lists of objects with any
fields, and one object for a transition. For each handler there is one lemma that
says which page it leaves, or that it was cut short.
-/

namespace MobaDisplay

open Js Script

/-- The control messages, by their ids. -/
inductive ControlMessage where
  /-- `(10, 2)` -/
  | blockList (items : List Fields)
  /-- `(10, 5)` -/
  | switchList (items : List Fields)
  /-- `(10, 8)` -/
  | trainList (items : List Fields)
  /-- `(10, 12)` -/
  | transition (data : Fields)

/-- What `JSON.parse` makes of a control message. -/
def ControlMessage.parsed : ControlMessage → JsValue
  | blockList items => message "10" "2" (.array (items.map .object))
  | switchList items => message "10" "5" (.array (items.map .object))
  | trainList items => message "10" "8" (.array (items.map .object))
  | transition data => message "10" "12" (.object data)

/-- The page after a sequence of control messages. -/
def Page.control (p : Page) (msgs : List ControlMessage) : Page :=
  p.receiveAll (msgs.map ControlMessage.parsed)

@[simp] theorem Page.control_nil (p : Page) : p.control [] = p := rfl

@[simp] theorem Page.control_cons (p : Page) (m : ControlMessage) (ms : List ControlMessage) :
    p.control (m :: ms) = (p.receive m.parsed).control ms := rfl

theorem Page.control_append (p : Page) (ms ns : List ControlMessage) :
    p.control (ms ++ ns) = (p.control ms).control ns := by
  rw [Page.control, List.map_append, Page.receiveAll_append]
  rfl

/-- The text of an item's id. -/
def idText (item : Fields) : String := (item.field "id").toText

theorem forItems_objects (items : List Fields) (body : JsValue → Handler) (p : Page) :
    (forItems (.array (items.map .object)) body).run p
      = (forOf (fun item => body (.object item)) items).run p := by
  unfold forItems
  rw [JsValue.iterate_array, bind_ok (ofExcept_ok _ p), forOf_map]

/-! ## `controlSwitch` -/

/-- The page on which switch `s` shows one graphic, or none. -/
def Page.switched (p : Page) (s : String) (graphic : Option Graphic) : Page :=
  { p with svg := { p.svg with
      visible := fun s' g => if s' = s then decide (graphic = some g) else p.svg.visible s' g } }

@[simp] theorem switched_trains (p : Page) (s : String) (graphic : Option Graphic) :
    (p.switched s graphic).trains = p.trains := rfl

@[simp] theorem switched_tspan (p : Page) (s : String) (graphic : Option Graphic) :
    (p.switched s graphic).svg.tspan = p.svg.tspan := rfl

theorem switched_visible (p : Page) (s s' : String) (graphic : Option Graphic) :
    (p.switched s graphic).svg.visible s'
      = if s' = s then (fun g => decide (graphic = some g)) else p.svg.visible s' := by
  funext g
  by_cases h : s' = s <;> simp [Page.switched, h]

theorem controlSwitch_ok (id position : JsValue) (p : Page) :
    (controlSwitch id position).run p
      = .ok () (p.switched id.toText (Graphic.ofPosition position)) := by
  unfold controlSwitch
  rw [modify_ok]
  congr 1
  cases Graphic.ofPosition position with
  | none =>
      simp only [Page.switched, Svg.hide, Svg.setVisible]
      congr 2
      funext s g
      by_cases hs : s = id.toText
      · cases g <;> simp [hs]
      · simp [hs]
  | some graphic =>
      simp only [Page.switched, Svg.hide, Svg.show', Svg.setVisible]
      congr 2
      funext s g
      by_cases hs : s = id.toText
      · cases g <;> cases graphic <;> simp [hs]
      · simp [hs]

/-- What the switch loop makes of one item. -/
def showSwitch (p : Page) (item : Fields) : Page :=
  p.switched (idText item) (Graphic.ofPosition (item.field "switchStand"))

/-- **The switch loop always runs to its end.** -/
theorem showSwitches_ok (items : List Fields) (p : Page) :
    (showSwitches (.array (items.map .object))).run p = .ok () (items.foldl showSwitch p) := by
  unfold showSwitches
  rw [forItems_objects]
  have hround : ∀ item ∈ items, ∀ q : Page, True →
      (do
        let id ← read (.object item) "id"
        let position ← read (.object item) "switchStand"
        controlSwitch id position : Handler).run q = .ok () (showSwitch q item) ∧ True := by
    intro item _ q _
    refine ⟨?_, trivial⟩
    rw [bind_ok (read_object item _ q), bind_ok (read_object item _ q), controlSwitch_ok]
    rfl
  exact (forOf_ok (I := fun _ => True) hround trivial).1

theorem foldl_showSwitch_svg (items : List Fields) (p : Page) :
    (items.foldl showSwitch p).trains = p.trains
      ∧ (items.foldl showSwitch p).svg.tspan = p.svg.tspan := by
  induction items generalizing p with
  | nil => exact ⟨rfl, rfl⟩
  | cons item items ih => exact ih (showSwitch p item)

/-! ## `setTrain` and the block loop -/

/-- The entry of the table under a key; `undefined` if there is none. -/
def Page.train (p : Page) (k : String) : JsValue := (p.trains k).getD .undefined

/-- A value whose properties can be read. -/
def isReadable : JsValue → Bool
  | .undefined => false
  | .null => false
  | _ => true

/-- A property, `undefined` where it cannot be read. -/
def member (v : JsValue) (name : String) : JsValue :=
  match v.get name with
  | .ok x => x
  | .error _ => .undefined

theorem get_of_isReadable {v : JsValue} (h : isReadable v = true) (name : String) :
    v.get name = .ok (member v name) := by
  cases v with
  | undefined => exact Bool.noConfusion h
  | null => exact Bool.noConfusion h
  | _ => rfl

theorem get_of_not_isReadable {v : JsValue} (h : isReadable v = false) (name : String) :
    v.get name = .error .typeError := by
  cases v with
  | undefined => rfl
  | null => rfl
  | _ => exact Bool.noConfusion h

/-- The text a block shows for the train under a key of the table. -/
def Page.trainText (p : Page) (k : String) : String :=
  trainLabel (member (p.train k) "direction") (member (p.train k) "address")

/-- The page with the text of one block set. -/
def Page.labelled (p : Page) (b text : String) : Page := { p with svg := p.svg.text b text }

@[simp] theorem labelled_trains (p : Page) (b text : String) :
    (p.labelled b text).trains = p.trains := rfl

@[simp] theorem labelled_visible (p : Page) (b text : String) :
    (p.labelled b text).svg.visible = p.svg.visible := rfl

theorem labelled_tspan (p : Page) (b text b' : String) :
    (p.labelled b text).svg.tspan b' = if b' = b then text else p.svg.tspan b' := rfl

theorem setTrain_ok {blockId trainId : JsValue} {p : Page}
    (h : isReadable (p.train trainId.toText) = true) :
    (setTrain blockId trainId).run p
      = .ok () (p.labelled blockId.toText (p.trainText trainId.toText)) := by
  have hread : ∀ name, (read (p.train trainId.toText) name).run p
      = .ok (member (p.train trainId.toText) name) p := by
    intro name
    unfold read
    rw [get_of_isReadable h]
    rfl
  unfold setTrain
  rw [bind_ok (show (get : EStateM JsError Page Page).run p = .ok p p from rfl)]
  exact (bind_ok (hread "direction")).trans (bind_ok (hread "address"))

/-- A train that is not in the table. -/
theorem setTrain_error {blockId trainId : JsValue} {p : Page}
    (h : isReadable (p.train trainId.toText) = false) :
    (setTrain blockId trainId).run p = .error .typeError p := by
  have hread : (read (p.train trainId.toText) "direction").run p = .error .typeError p := by
    unfold read
    rw [get_of_not_isReadable h]
    rfl
  unfold setTrain
  rw [bind_ok (show (get : EStateM JsError Page Page).run p = .ok p p from rfl)]
  exact bind_error hread

/-- The branch the block loop takes: the item names a train. -/
def namesTrain (item : Fields) : Bool := (item.field "trainId").truthy

/-- The key of the train an item names. -/
def trainKey (item : Fields) : String := (item.field "trainId").toText

/-- The block loop gets past this item: it names no train, or one in the table. -/
def Page.knows (p : Page) (item : Fields) : Bool :=
  !namesTrain item || isReadable (p.train (trainKey item))

/-- What the block loop makes of one item it gets past. -/
def showBlock (p : Page) (item : Fields) : Page :=
  if namesTrain item then p.labelled (idText item) (p.trainText (trainKey item)) else p

@[simp] theorem showBlock_trains (p : Page) (item : Fields) :
    (showBlock p item).trains = p.trains := by
  unfold showBlock
  split <;> rfl

@[simp] theorem showBlock_visible (p : Page) (item : Fields) :
    (showBlock p item).svg.visible = p.svg.visible := by
  unfold showBlock
  split <;> rfl

/-- One round of the block loop. -/
theorem showBlocks_round {item : Fields} {p : Page} (h : p.knows item = true) :
    (do
      let trainId ← read (.object item) "trainId"
      if trainId.truthy then
        let id ← read (.object item) "id"
        setTrain id trainId : Handler).run p = .ok () (showBlock p item) := by
  rw [bind_ok (read_object item _ p)]
  unfold showBlock
  by_cases hnames : namesTrain item = true
  · have hreadable : isReadable (p.train (trainKey item)) = true := by
      simpa [Page.knows, hnames] using h
    rw [if_pos hnames, if_pos (show (item.field "trainId").truthy = true from hnames),
      bind_ok (read_object item _ p)]
    exact setTrain_ok hreadable
  · rw [if_neg hnames, if_neg (show ¬ (item.field "trainId").truthy = true from hnames)]
    rfl

theorem showBlocks_round_error {item : Fields} {p : Page} (h : p.knows item = false) :
    (do
      let trainId ← read (.object item) "trainId"
      if trainId.truthy then
        let id ← read (.object item) "id"
        setTrain id trainId : Handler).run p = .error .typeError p := by
  simp only [Page.knows, Bool.or_eq_false_iff, Bool.not_eq_false'] at h
  rw [bind_ok (read_object item _ p), if_pos (show (item.field "trainId").truthy = true from h.1),
    bind_ok (read_object item _ p)]
  exact setTrain_error h.2

theorem foldl_showBlock_svg (items : List Fields) (p : Page) :
    (items.foldl showBlock p).trains = p.trains
      ∧ (items.foldl showBlock p).svg.visible = p.svg.visible := by
  induction items generalizing p with
  | nil => exact ⟨rfl, rfl⟩
  | cons item items ih =>
      obtain ⟨htrains, hvisible⟩ := ih (showBlock p item)
      rw [List.foldl_cons, htrains, hvisible]
      exact ⟨showBlock_trains p item, showBlock_visible p item⟩

theorem train_congr {p q : Page} (h : q.trains = p.trains) (k : String) :
    q.train k = p.train k := by
  unfold Page.train
  rw [h]

theorem trainText_congr {p q : Page} (h : q.trains = p.trains) (k : String) :
    q.trainText k = p.trainText k := by
  unfold Page.trainText
  rw [train_congr h]

theorem knows_congr {p q : Page} (h : q.trains = p.trains) (item : Fields) :
    q.knows item = p.knows item := by
  unfold Page.knows
  rw [train_congr h]

/-- The rounds read the table, and keep it. -/
theorem showBlocks_rounds {items : List Fields} {p : Page}
    (h : ∀ item ∈ items, p.knows item = true) :
    ∀ item ∈ items, ∀ q : Page, q.trains = p.trains →
      (do
        let trainId ← read (.object item) "trainId"
        if trainId.truthy then
          let id ← read (.object item) "id"
          setTrain id trainId : Handler).run q = .ok () (showBlock q item)
        ∧ (showBlock q item).trains = p.trains := by
  intro item hitem q hq
  have hknows : q.knows item = true := by
    rw [knows_congr hq]
    exact h item hitem
  exact ⟨showBlocks_round hknows, by rw [showBlock_trains, hq]⟩

/-- **The block loop runs to its end if it gets past every item.** -/
theorem showBlocks_ok {items : List Fields} {p : Page} (h : ∀ item ∈ items, p.knows item = true) :
    (showBlocks (.array (items.map .object))).run p = .ok () (items.foldl showBlock p) := by
  unfold showBlocks
  rw [forItems_objects]
  exact (forOf_ok (I := fun q => q.trains = p.trains) (showBlocks_rounds h) rfl).1

/-- **It stops at the first item it does not get past**, having shown the ones before. -/
theorem showBlocks_error {before rest : List Fields} {item : Fields} {p : Page}
    (h : ∀ i ∈ before, p.knows i = true) (hitem : p.knows item = false) :
    (showBlocks (.array ((before ++ item :: rest).map .object))).run p
      = .error .typeError (before.foldl showBlock p) := by
  have hunknown : (before.foldl showBlock p).knows item = false := by
    rw [knows_congr (foldl_showBlock_svg before p).1]
    exact hitem
  unfold showBlocks
  rw [forItems_objects]
  exact forOf_error (I := fun q => q.trains = p.trains) (showBlocks_rounds h) rfl
    (showBlocks_round_error hunknown)

/-! ## The train loop and transitions -/

/-- The table with one entry stored. -/
def Page.stored (p : Page) (k : String) (item : JsValue) : Page :=
  { p with trains := fun k' => if k' = k then some item else p.trains k' }

theorem storeTrains_nil (p : Page) :
    (storeTrains (.array (([] : List Fields).map .object))).run p = .ok () p := rfl

/-- **The train loop is cut short in its first round**, behind the assignment. -/
theorem storeTrains_cons (item : Fields) (items : List Fields) (p : Page) :
    (storeTrains (.array ((item :: items).map .object))).run p
      = .error (.referenceError "cd") (p.stored (idText item) (.object item)) := by
  unfold storeTrains
  rw [forItems_objects, forOf]
  refine bind_error ?_
  rw [bind_ok (read_object item _ p), bind_ok (modify_ok _ p)]
  rfl

theorem moveTrain_ok {data : Fields} {p : Page}
    (h : isReadable (p.train (trainKey data)) = true) :
    (moveTrain (.object data)).run p
      = .ok () ((p.labelled (data.field "toBlock").toText (p.trainText (trainKey data))).labelled
          (data.field "fromBlock").toText "") := by
  rw [moveTrain, bind_ok (read_object data _ p), bind_ok (read_object data _ p),
    bind_ok (setTrain_ok h), bind_ok (read_object data _ _), modify_ok]
  rfl

/-! ## Whole messages -/

theorem receive_switchList (items : List Fields) (p : Page) :
    p.receive (ControlMessage.switchList items).parsed = items.foldl showSwitch p := by
  unfold Page.receive
  rw [ControlMessage.parsed, after, onmessage_control, ← after]
  exact after_ok (showSwitches_ok items p)

/-- **A block list whose trains are all known runs on into the switch loop.** -/
theorem onmessage_blockList {items : List Fields} {p : Page}
    (h : ∀ item ∈ items, p.knows item = true) :
    (onmessage (ControlMessage.blockList items).parsed).run p
      = .ok () (items.foldl showSwitch (items.foldl showBlock p)) := by
  unfold ControlMessage.parsed
  rw [onmessage_control]
  exact (bind_ok (showBlocks_ok h)).trans (showSwitches_ok items _)

theorem receive_blockList {items : List Fields} {p : Page}
    (h : ∀ item ∈ items, p.knows item = true) :
    p.receive (ControlMessage.blockList items).parsed
      = items.foldl showSwitch (items.foldl showBlock p) :=
  after_ok (onmessage_blockList h)

/-- One with a train that is not in the table ends there. -/
theorem onmessage_blockList_error {before rest : List Fields} {item : Fields} {p : Page}
    (h : ∀ i ∈ before, p.knows i = true) (hitem : p.knows item = false) :
    (onmessage (ControlMessage.blockList (before ++ item :: rest)).parsed).run p
      = .error .typeError (before.foldl showBlock p) := by
  unfold ControlMessage.parsed
  rw [onmessage_control]
  exact bind_error (showBlocks_error h hitem)

theorem onmessage_trainList_nil (p : Page) :
    (onmessage (ControlMessage.trainList []).parsed).run p = .ok () p := by
  unfold ControlMessage.parsed
  rw [onmessage_control]
  exact storeTrains_nil p

theorem onmessage_trainList_cons (item : Fields) (items : List Fields) (p : Page) :
    (onmessage (ControlMessage.trainList (item :: items)).parsed).run p
      = .error (.referenceError "cd") (p.stored (idText item) (.object item)) := by
  unfold ControlMessage.parsed
  rw [onmessage_control]
  exact storeTrains_cons item items p

/-- A transition with a train of the table writes the target, and then the source. -/
theorem receive_transition {data : Fields} {p : Page}
    (h : isReadable (p.train (trainKey data)) = true) :
    p.receive (ControlMessage.transition data).parsed
      = (p.labelled (data.field "toBlock").toText (p.trainText (trainKey data))).labelled
          (data.field "fromBlock").toText "" := by
  unfold Page.receive
  rw [ControlMessage.parsed, after, onmessage_control, ← after]
  exact after_ok (moveTrain_ok h)

end MobaDisplay
