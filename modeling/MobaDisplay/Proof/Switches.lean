import MobaDisplay.Lib.LastWrite
import MobaDisplay.Lib.Transition
import MobaDisplay.Page.Control

/-!
# Which graphic of a switch is shown

The switch loop is the only code that writes graphics, and for one switch the last
item it handles decides. It is meant to run over the lists of `(10, 5)`; as
`case 2` has no `break`, it also runs over every block list whose trains are all
known, and takes the block ids for switch ids. So the display follows the last
`(10, 5)` item exactly as long as no such block list names another position.
-/

namespace MobaDisplay

open Js Script LastWrite

/-- An item for switch `s`. -/
def isFor (s : String) (item : Fields) : Bool := idText item == s

/-- The graphic an item names, if its `switchStand` is one of the four positions. -/
def stand (item : Fields) : Option Graphic := Graphic.ofPosition (item.field "switchStand")

/-- The items of the `(10, 5)` messages, in order. -/
def switchListItems : List ControlMessage → List Fields
  | [] => []
  | .switchList items :: ms => items ++ switchListItems ms
  | .blockList _ :: ms => switchListItems ms
  | .trainList _ :: ms => switchListItems ms
  | .transition _ :: ms => switchListItems ms

/-- The position the last `(10, 5)` item for `s` names. -/
def lastStand (s : String) (msgs : List ControlMessage) : Option Graphic :=
  (last (isFor s) (switchListItems msgs)).bind stand

/-- Exactly one graphic of `s` is visible. -/
def Page.Shows (p : Page) (s : String) (g : Graphic) : Prop :=
  ∀ g', p.svg.visible s g' = decide (g = g')

/-- The items the switch loop runs over in one step. -/
def loopItems (p : Page) : ControlMessage → List Fields
  | .switchList items => items
  | .blockList items => if items.all p.knows then items else []
  | .trainList _ => []
  | .transition _ => []

/-- `s` shows the position of the last `(10, 5)` item for it, if that is one of the four. -/
def ShowsLast (s : String) (p : Page) (msgs : List ControlMessage) : Prop :=
  ∀ g, lastStand s msgs = some g → (p.control msgs).Shows s g

/-- The next message is no block list that runs on and names another position for `s`. -/
def NotFallenOn (s : String) (p : Page) (before : List ControlMessage) (m : ControlMessage) :
    Prop :=
  ∀ items, m = .blockList items → (∀ item ∈ items, (p.control before).knows item = true) →
    ∀ item, last (isFor s) items = some item →
      ∀ g, lastStand s before = some g → stand item = some g

/-! ## The last item the loop handles decides -/

theorem foldl_showSwitch_visible (s : String) (items : List Fields) (p : Page) :
    (items.foldl showSwitch p).svg.visible s
      = ((last (isFor s) items).map (fun item g => decide (stand item = some g))).getD
          (p.svg.visible s) := by
  refine foldl_view (v := fun q : Page => q.svg.visible s) (I := fun _ => True)
    (fun q item _ => ⟨?_, trivial⟩) items trivial
  unfold showSwitch
  rw [switched_visible]
  by_cases h : idText item = s
  · have hfor : isFor s item = true := beq_iff_eq.mpr h
    rw [if_pos h.symm, if_pos hfor]
    rfl
  · have hfor : ¬ isFor s item = true := fun hb => h (beq_iff_eq.mp hb)
    rw [if_neg (Ne.symm h), if_neg hfor]

/-- The graphics change in one step as the loop's items say. -/
theorem receive_visible (p : Page) (m : ControlMessage) :
    (p.receive m.parsed).svg.visible = ((loopItems p m).foldl showSwitch p).svg.visible := by
  cases m with
  | switchList items => rw [receive_switchList]; rfl
  | blockList items =>
      by_cases hall : ∀ item ∈ items, p.knows item = true
      · rw [receive_blockList hall, loopItems, if_pos (List.all_eq_true.mpr hall)]
        funext s
        rw [foldl_showSwitch_visible, foldl_showSwitch_visible, (foldl_showBlock_svg items p).2]
      · obtain ⟨before, item, rest, rfl, hbefore, hitem⟩ := exists_first_not hall
        rw [Page.receive, after_error (onmessage_blockList_error hbefore hitem), loopItems,
          if_neg (fun h => hall (List.all_eq_true.mp h))]
        exact (foldl_showBlock_svg before p).2
  | trainList items =>
      cases items with
      | nil =>
          unfold Page.receive
          rw [after_ok (onmessage_trainList_nil p)]
          rfl
      | cons item items =>
          unfold Page.receive
          rw [after_error (onmessage_trainList_cons item items p)]
          rfl
  | transition data =>
      -- a transition writes labels only, wherever it ends
      unfold Page.receive
      rw [ControlMessage.parsed, after, onmessage_control, ← after]
      have keep : Keeps (fun q => q.svg.visible = p.svg.visible) (moveTrain (.object data)) :=
        keeps_moveTrain (fun q id text hq => hq)
      exact keep p rfl

theorem receive_visible_last (s : String) (p : Page) (m : ControlMessage) :
    (p.receive m.parsed).svg.visible s
      = ((last (isFor s) (loopItems p m)).map (fun item g => decide (stand item = some g))).getD
          (p.svg.visible s) := by
  rw [receive_visible, foldl_showSwitch_visible]

/-! ## One more message -/

theorem control_snoc (p : Page) (before : List ControlMessage) (m : ControlMessage) :
    p.control (before ++ [m]) = (p.control before).receive m.parsed := by
  rw [Page.control_append]
  rfl

theorem switchListItems_append (ms ns : List ControlMessage) :
    switchListItems (ms ++ ns) = switchListItems ms ++ switchListItems ns := by
  induction ms with
  | nil => rfl
  | cons m ms ih =>
      rw [List.cons_append]
      cases m <;> simp only [switchListItems, ih, List.append_assoc]

/-- Only a switch list moves the position the history asks for. -/
theorem lastStand_snoc (s : String) (before : List ControlMessage) (m : ControlMessage) :
    lastStand s (before ++ [m])
      = ((last (isFor s) (switchListItems [m])).or
          (last (isFor s) (switchListItems before))).bind stand := by
  unfold lastStand
  rw [switchListItems_append, last_append]

theorem lastStand_snoc_other {s : String} {before : List ControlMessage} {m : ControlMessage}
    (h : switchListItems [m] = []) : lastStand s (before ++ [m]) = lastStand s before := by
  rw [lastStand_snoc, h]
  rfl

/-- Where the loop handles no item for `s`, the message changes nothing for `s`. -/
theorem receive_visible_none {s : String} {p : Page} {m : ControlMessage}
    (h : last (isFor s) (loopItems p m) = none) :
    (p.receive m.parsed).svg.visible s = p.svg.visible s := by
  rw [receive_visible_last, h]
  rfl

theorem showsLast_nil (s : String) (p : Page) : ShowsLast s p [] := by
  intro g hg
  exact absurd hg (by simp [lastStand, switchListItems, last])

theorem showsLast_congr {s : String} {p : Page} {before : List ControlMessage} {m : ControlMessage}
    (h : ShowsLast s p before) (hitems : switchListItems [m] = [])
    (hloop : last (isFor s) (loopItems (p.control before) m) = none) :
    ShowsLast s p (before ++ [m]) := by
  intro g hg g'
  rw [lastStand_snoc_other hitems] at hg
  rw [control_snoc, receive_visible_none hloop]
  exact h g hg g'

/-- A switch list moves the position the history asks for, and the display with it. -/
theorem showsLast_switchList {s : String} {p : Page} {before : List ControlMessage}
    (h : ShowsLast s p before) (items : List Fields) :
    ShowsLast s p (before ++ [.switchList items]) := by
  intro g hg g'
  rw [lastStand_snoc] at hg
  rw [control_snoc, receive_visible_last]
  simp only [switchListItems, List.append_nil] at hg
  simp only [loopItems]
  cases hlast : last (isFor s) items with
  | none =>
      rw [hlast] at hg
      exact h g hg g'
  | some item =>
      rw [hlast] at hg
      have hstand : stand item = some g := hg
      simp [hstand]

/-- **One step**, from a state in which the switch is right. -/
theorem showsLast_snoc (s : String) (p : Page) (before : List ControlMessage) (m : ControlMessage)
    (h : ShowsLast s p before) : ShowsLast s p (before ++ [m]) ↔ NotFallenOn s p before m := by
  cases m with
  | switchList items =>
      refine ⟨?_, ?_⟩
      · intro _ items' he
        exact ControlMessage.noConfusion he
      · intro _
        exact showsLast_switchList h items
  | blockList items =>
      by_cases hall : ∀ item ∈ items, (p.control before).knows item = true
      · have hitems : loopItems (p.control before) (.blockList items) = items :=
          if_pos (List.all_eq_true.mpr hall)
        cases hlast : last (isFor s) items with
        | none =>
            refine ⟨?_, ?_⟩
            · intro _ items' he _ item hitem
              obtain rfl := ControlMessage.blockList.inj he
              rw [hlast] at hitem
              exact absurd hitem (by simp)
            · intro _
              exact showsLast_congr h rfl (by rw [hitems]; exact hlast)
        | some item =>
            -- the list writes the graphics of `s`: the last word is that of `item`
            have hvisible : ∀ g', (p.control (before ++ [.blockList items])).svg.visible s g'
                = decide (stand item = some g') := by
              intro g'
              rw [control_snoc, receive_visible_last, hitems, hlast]
              rfl
            refine ⟨?_, ?_⟩
            · intro hnow items' he _ item' hitem' g hg
              obtain rfl := ControlMessage.blockList.inj he
              rw [hlast] at hitem'
              obtain rfl := Option.some.inj hitem'
              have hshown := hnow g (by rw [lastStand_snoc_other rfl]; exact hg) g
              rw [hvisible] at hshown
              simpa using hshown
            · intro hnot g hg g'
              rw [lastStand_snoc_other rfl] at hg
              rw [hvisible, hnot items rfl hall item hlast g hg]
              simp
      · have hnone : loopItems (p.control before) (.blockList items) = [] :=
          if_neg (fun hb => hall (List.all_eq_true.mp hb))
        refine ⟨?_, ?_⟩
        · intro _ items' he hall'
          obtain rfl := ControlMessage.blockList.inj he
          exact absurd hall' hall
        · intro _
          exact showsLast_congr h rfl (by rw [hnone]; rfl)
  | trainList items =>
      exact ⟨fun _ items' he => ControlMessage.noConfusion he, fun _ => showsLast_congr h rfl rfl⟩
  | transition data =>
      exact ⟨fun _ items' he => ControlMessage.noConfusion he, fun _ => showsLast_congr h rfl rfl⟩

/-- A switch item and a block item without a train, by their ids. -/
def switchItem (id position : String) : Fields :=
  [("id", .number id), ("switchStand", .string position)]

def freeBlockItem (id : String) : Fields := [("id", .number id)]

end MobaDisplay
