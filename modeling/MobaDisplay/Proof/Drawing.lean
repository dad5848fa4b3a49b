import MobaDisplay.Proof.Panel

/-!
# What the drawing shows was reported

The handlers write what they are sent into the drawing, and stop wherever something
cannot be read. Whatever is sent to them, and however often they stop, nothing appears
that no message reported: a switch that has changed shows what an item said about it, a
label that has changed is blank because a transition left the block, or is the label of a
train that some message placed there and some train list described.
-/

namespace MobaDisplay

open Js Script

/-! ## What a message reports -/

/-- `d` is a control message with this id and this data. -/
def IsControl (d : JsValue) (messageId : String) (data : JsValue) : Prop :=
  ∃ fields : Fields, d = .object fields ∧ (fields.field "groupId").isNumber "10" = true
    ∧ (fields.field "messageId").isNumber messageId = true ∧ data = fields.field "data"

/-- `data` runs over this item, and the item can be read. -/
def Lists (data item : JsValue) : Prop :=
  ∃ items, data.iterate = .ok items ∧ item ∈ items ∧ isReadable item = true

/-- A train list has this item, under the key `k`. -/
def DescribesTrain (d : JsValue) (k : String) (item : JsValue) : Prop :=
  ∃ data, IsControl d "8" data ∧ Lists data item ∧ (member item "id").toText = k

/-- A block list has the train `k` in block `b`, or a transition moves it there. -/
def PlacesTrain (d : JsValue) (b k : String) : Prop :=
  (∃ data item, IsControl d "2" data ∧ Lists data item
      ∧ (member item "trainId").truthy = true
      ∧ (member item "id").toText = b ∧ (member item "trainId").toText = k)
    ∨ ∃ data, IsControl d "12" data
      ∧ (member data "toBlock").toText = b ∧ (member data "trainId").toText = k

/-- A transition leaves block `b`. -/
def LeavesBlock (d : JsValue) (b : String) : Prop :=
  ∃ data, IsControl d "12" data ∧ (member data "fromBlock").toText = b

/-- A list has the switch `s` in a position, and this graphic is its drawing. -/
def SetsSwitch (d : JsValue) (s : String) (graphic : Option Graphic) : Prop :=
  ∃ data item, (IsControl d "2" data ∨ IsControl d "5" data) ∧ Lists data item
    ∧ (member item "id").toText = s ∧ Graphic.ofPosition (member item "switchStand") = graphic

/-- The table had this entry at first, or a train list described it. -/
def KnownTrain (p : Page) (msgs : List JsValue) (k : String) (item : JsValue) : Prop :=
  p.trains k = some item ∨ ∃ d ∈ msgs, DescribesTrain d k item

/-- What `q` has drawn was there on `p`, or some message reported it. -/
structure Reported (p : Page) (msgs : List JsValue) (q : Page) : Prop where
  trains : ∀ k item, q.trains k = some item → KnownTrain p msgs k item
  switches : ∀ s, q.svg.visible s = p.svg.visible s
    ∨ ∃ d ∈ msgs, ∃ graphic, SetsSwitch d s graphic
      ∧ q.svg.visible s = fun g => decide (graphic = some g)
  labels : ∀ b, q.svg.tspan b = p.svg.tspan b
    ∨ (∃ d ∈ msgs, LeavesBlock d b ∧ q.svg.tspan b = "")
    ∨ ∃ d ∈ msgs, ∃ k item, PlacesTrain d b k ∧ KnownTrain p msgs k item
      ∧ q.svg.tspan b = trainLabel (member item "direction") (member item "address")

/-! ## Scripts that read before they write -/

section Rules

variable {P : Page → Prop}

/-- Behind a read, the value was readable. -/
theorem keeps_read_bind {v : JsValue} {name : String} {α : Type}
    {k : JsValue → EStateM JsError Page α}
    (h : isReadable v = true → Keeps P (k (member v name))) : Keeps P (read v name >>= k) := by
  intro q hq
  unfold read
  cases hv : isReadable v with
  | true =>
      rw [get_of_isReadable hv, after, bind_ok (ofExcept_ok _ q)]
      exact h hv q hq
  | false =>
      rw [get_of_not_isReadable hv, after_error (bind_error (ofExcept_error _ q))]
      exact hq

theorem keeps_forItems_of_mem {data : JsValue} {body : JsValue → Handler}
    (h : ∀ items, data.iterate = .ok items → ∀ item ∈ items, Keeps P (body item)) :
    Keeps P (forItems data body) := by
  intro q hq
  unfold forItems
  cases hitems : data.iterate with
  | ok items =>
      rw [after, bind_ok (ofExcept_ok _ q)]
      exact keeps_forOf (h items hitems) q hq
  | error e =>
      rw [after_error (bind_error (ofExcept_error e q))]
      exact hq

end Rules

/-! ## What each write adds is reported -/

section Writes

variable {p q : Page} {msgs : List JsValue} {d : JsValue}

theorem reported_label {b text : String} (hq : Reported p msgs q)
    (htext : (∃ d ∈ msgs, LeavesBlock d b ∧ text = "")
      ∨ ∃ d ∈ msgs, ∃ k item, PlacesTrain d b k ∧ KnownTrain p msgs k item
        ∧ text = trainLabel (member item "direction") (member item "address")) :
    Reported p msgs (q.labelled b text) := by
  refine ⟨hq.trains, hq.switches, ?_⟩
  intro b'
  rw [labelled_tspan]
  by_cases hb : b' = b
  · rw [if_pos hb, hb]
    exact Or.inr htext
  · rw [if_neg hb]
    exact hq.labels b'

/-- The label of a train is taken from the table, so some list has described the train. -/
theorem keeps_setTrain_reported (hd : d ∈ msgs) {blockId trainId : JsValue}
    (hplaces : PlacesTrain d blockId.toText trainId.toText) :
    Keeps (Reported p msgs) (setTrain blockId trainId) := by
  intro q hq
  cases hreadable : isReadable (q.train trainId.toText) with
  | false =>
      rw [after_error (setTrain_error hreadable)]
      exact hq
  | true =>
      rw [after_ok (setTrain_ok hreadable)]
      have hentry : q.trains trainId.toText = some (q.train trainId.toText) := by
        cases hentry : q.trains trainId.toText with
        | none =>
            rw [Page.train, hentry] at hreadable
            exact Bool.noConfusion hreadable
        | some item => rw [Page.train, hentry, Option.getD_some]
      exact reported_label hq
        (Or.inr ⟨d, hd, trainId.toText, _, hplaces, hq.trains _ _ hentry, rfl⟩)

theorem keeps_controlSwitch_reported (hd : d ∈ msgs) {id position : JsValue}
    (hsets : SetsSwitch d id.toText (Graphic.ofPosition position)) :
    Keeps (Reported p msgs) (controlSwitch id position) := by
  intro q hq
  rw [after_ok (controlSwitch_ok id position q)]
  refine ⟨hq.trains, ?_, hq.labels⟩
  intro s
  rw [switched_visible]
  by_cases hs : s = id.toText
  · rw [if_pos hs, hs]
    exact Or.inr ⟨d, hd, _, hsets, rfl⟩
  · rw [if_neg hs]
    exact hq.switches s

end Writes

/-! ## The handlers -/

section Handlers

variable {p : Page} {msgs : List JsValue} {d data : JsValue}

theorem keeps_showBlocks_reported (hd : d ∈ msgs) (hcontrol : IsControl d "2" data) :
    Keeps (Reported p msgs) (showBlocks data) := by
  refine keeps_forItems_of_mem ?_
  intro items hitems item hitem
  refine keeps_read_bind ?_
  intro hreadable
  split
  · rename_i hnames
    refine keeps_read_bind ?_
    intro _
    have hlists : Lists data item := ⟨items, hitems, hitem, hreadable⟩
    exact keeps_setTrain_reported hd (Or.inl ⟨data, item, hcontrol, hlists, hnames, rfl, rfl⟩)
  · exact keeps_pure _

theorem keeps_showSwitches_reported (hd : d ∈ msgs)
    (hcontrol : IsControl d "2" data ∨ IsControl d "5" data) :
    Keeps (Reported p msgs) (showSwitches data) := by
  refine keeps_forItems_of_mem ?_
  intro items hitems item hitem
  refine keeps_read_bind ?_
  intro hreadable
  refine keeps_read_bind ?_
  intro _
  have hlists : Lists data item := ⟨items, hitems, hitem, hreadable⟩
  exact keeps_controlSwitch_reported hd ⟨data, item, hcontrol, hlists, rfl, rfl⟩

/-- The entry is stored before the loop is cut short. -/
theorem keeps_storeTrains_reported (hd : d ∈ msgs) (hcontrol : IsControl d "8" data) :
    Keeps (Reported p msgs) (storeTrains data) := by
  refine keeps_forItems_of_mem ?_
  intro items hitems item hitem
  refine keeps_read_bind ?_
  intro hreadable
  refine keeps_bind (keeps_modify ?_) (fun _ => keeps_throw _)
  intro q hq
  refine ⟨?_, hq.switches, hq.labels⟩
  intro k entry hentry
  dsimp only at hentry
  split at hentry
  · rename_i hk
    have hlists : Lists data item := ⟨items, hitems, hitem, hreadable⟩
    obtain rfl := Option.some.inj hentry
    exact Or.inr ⟨d, hd, data, hcontrol, hlists, hk.symm⟩
  · exact hq.trains k entry hentry

theorem keeps_moveTrain_reported (hd : d ∈ msgs) (hcontrol : IsControl d "12" data) :
    Keeps (Reported p msgs) (moveTrain data) := by
  refine keeps_read_bind ?_
  intro _
  refine keeps_read_bind ?_
  intro _
  refine keeps_bind (keeps_setTrain_reported hd (Or.inr ⟨data, hcontrol, rfl, rfl⟩)) ?_
  intro _
  refine keeps_read_bind ?_
  intro _
  refine keeps_modify ?_
  intro q hq
  exact reported_label hq (Or.inl ⟨d, hd, ⟨data, hcontrol, rfl⟩, rfl⟩)

theorem keeps_handleControlMessages_reported (hd : d ∈ msgs) {messageId : JsValue}
    (hcontrol : ∀ id, messageId.isNumber id = true → IsControl d id data) :
    Keeps (Reported p msgs) (handleControlMessages messageId data) := by
  unfold handleControlMessages
  split
  · rename_i h2
    -- no `break`: the block list is read once more, as a switch list
    exact keeps_bind (keeps_showBlocks_reported hd (hcontrol _ h2))
      (fun _ => keeps_showSwitches_reported hd (Or.inl (hcontrol _ h2)))
  · split
    · rename_i h5
      exact keeps_showSwitches_reported hd (Or.inr (hcontrol _ h5))
    · split
      · rename_i h8
        exact keeps_storeTrains_reported hd (hcontrol _ h8)
      · split
        · rename_i h12
          exact keeps_moveTrain_reported hd (hcontrol _ h12)
        · exact keeps_pure _

end Handlers

theorem keeps_handleSystemMessages_reported {p : Page} {msgs : List JsValue}
    {messageId data : JsValue} :
    Keeps (Reported p msgs) (handleSystemMessages messageId data) := by
  unfold handleSystemMessages
  split
  · split
    · rename_i s _
      refine keeps_modify ?_
      intro q hq
      obtain ⟨htrains, hsvg⟩ := handleStatus_drawing q s
      exact ⟨by rw [htrains]; exact hq.trains, by rw [hsvg]; exact hq.switches,
        by rw [hsvg]; exact hq.labels⟩
    · exact keeps_pure _
  · exact keeps_pure _

/-- **One message** adds what it reports. -/
theorem reported_receive {p q : Page} {msgs : List JsValue} {d : JsValue} (hd : d ∈ msgs)
    (hq : Reported p msgs q) : Reported p msgs (q.receive d) := by
  cases d with
  | object fields =>
      unfold Page.receive
      rw [after, onmessage_object, ← after]
      split
      · exact keeps_handleSystemMessages_reported q hq
      · split
        · rename_i hgroup
          refine keeps_handleControlMessages_reported hd ?_ q hq
          intro id hid
          exact ⟨fields, rfl, hgroup, hid, rfl⟩
        · exact hq
  | _ => exact hq

/--
**Nothing is drawn that no message reported**, whatever the page receives. A switch that
does not show what it showed at first shows the one graphic, or none, that an item of a
list means; a label that is not the first one is blank, and a transition left the block,
or is that of a train placed there, as a train list described it.
-/
theorem drawing_reported (p : Page) (msgs : List JsValue) :
    Reported p msgs (p.receiveAll msgs) := by
  -- the messages so far are some of all
  have hrun : ∀ ds, ds ⊆ msgs → ∀ q, Reported p msgs q → Reported p msgs (q.receiveAll ds) := by
    intro ds
    induction ds with
    | nil => exact fun _ _ hq => hq
    | cons d ds ih =>
        intro hsub q hq
        obtain ⟨hd, hds⟩ := List.cons_subset.mp hsub
        exact ih hds _ (reported_receive hd hq)
  exact hrun msgs (List.Subset.refl msgs) p ⟨fun _ _ h => Or.inl h, fun _ => Or.inl rfl,
    fun _ => Or.inl rfl⟩

end MobaDisplay
