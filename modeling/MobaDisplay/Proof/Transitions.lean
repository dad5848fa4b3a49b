import MobaDisplay.Lib.Occupancy
import MobaDisplay.Proof.Blocks

/-!
# What transitions do to the display

The display shows an occupancy if every block has the label of the train that
stands in it. A transition writes the label into the block the train moves to, and
then clears the one it comes from. With the first block free and the second one
holding the train, that is one move, so the display follows the moves.
-/

namespace MobaDisplay

open Js Script Transition

/-- What a block shows for the train in it, or for none. -/
def Page.labelOf (p : Page) : Option String → String
  | none => ""
  | some k => p.trainText k

/-- The display shows the occupancy. -/
def Renders (p : Page) (o : Occupancy String String) : Prop :=
  ∀ b, p.svg.tspan b = p.labelOf (o.holder b)

/-- The move a transition reports. -/
def moveOf (data : Fields) : Occupancy.Move String String where
  thing := trainKey data
  source := (data.field "fromBlock").toText
  target := (data.field "toBlock").toText

/-- The moves of trains between blocks. -/
abbrev trainMoves : System (Occupancy String String) (Occupancy.Move String String) :=
  Occupancy.moves String String

theorem labelOf_congr {p q : Page} (h : q.trains = p.trains) (train : Option String) :
    q.labelOf train = p.labelOf train := by
  cases train with
  | none => rfl
  | some k => exact trainText_congr h k

/-- The label of a train ends with its direction mark. -/
theorem trainLabel_ne_empty (direction address : JsValue) : trainLabel direction address ≠ "" := by
  have happend : ∀ s mark : String, mark.toList ≠ [] → s ++ mark ≠ "" := by
    intro s mark hmark h
    have hlist := congrArg String.toList h
    rw [String.toList_append] at hlist
    exact hmark (List.append_eq_nil_iff.mp hlist).2
  unfold trainLabel
  split
  · exact happend _ " >>" (by decide)
  · exact happend _ " <<" (by decide)

theorem Renders.ne_empty_iff {p : Page} {o : Occupancy String String} (h : Renders p o)
    (b : String) : p.svg.tspan b ≠ "" ↔ ∃ k, o.holder b = some k := by
  rw [h b]
  cases o.holder b with
  | none => simp [Page.labelOf]
  | some k =>
      refine ⟨?_, ?_⟩
      · intro _
        exact ⟨k, rfl⟩
      · intro _
        exact trainLabel_ne_empty _ _

theorem transition_trains {data : Fields} {p : Page}
    (h : isReadable (p.train (trainKey data)) = true) :
    (p.receive (ControlMessage.transition data).parsed).trains = p.trains := by
  rw [receive_transition h]
  rfl

/-- The labels after a transition. -/
theorem transition_tspan {data : Fields} {p : Page}
    (h : isReadable (p.train (trainKey data)) = true) (b : String) :
    (p.receive (ControlMessage.transition data).parsed).svg.tspan b
      = if b = (moveOf data).source then ""
        else if b = (moveOf data).target then p.trainText (trainKey data)
        else p.svg.tspan b := by
  rw [receive_transition h, labelled_tspan, labelled_tspan]
  rfl

/-- **One transition is one move.** -/
theorem renders_transition {data : Fields} {p : Page} {o o' : Occupancy String String}
    (hrenders : Renders p o) (h : isReadable (p.train (trainKey data)) = true)
    (hmove : o.move (moveOf data) = some o') :
    Renders (p.receive (ControlMessage.transition data).parsed) o' := by
  intro b
  rw [labelOf_congr (transition_trains h), transition_tspan h, Occupancy.holder_move hmove]
  by_cases hsource : b = (moveOf data).source
  · rw [if_pos hsource, if_pos hsource]
    rfl
  · rw [if_neg hsource, if_neg hsource]
    by_cases htarget : b = (moveOf data).target
    · rw [if_pos htarget, if_pos htarget]
      rfl
    · rw [if_neg htarget, if_neg htarget]
      exact hrenders b

/-- The page after a run of transitions. -/
def Page.transitions (p : Page) (msgs : List Fields) : Page :=
  p.control (msgs.map .transition)

theorem transitions_eq_foldl (p : Page) (msgs : List Fields) :
    p.transitions msgs
      = msgs.foldl (fun q data => q.receive (ControlMessage.transition data).parsed) p := by
  unfold Page.transitions Page.control Page.receiveAll
  rw [List.map_map, List.foldl_map]
  rfl

/-- **A run of transitions is a run of moves**, over a table that stays the same. -/
theorem renders_run {p : Page} {o o' : Occupancy String String} {msgs : List Fields}
    (hrenders : Renders p o)
    (hknown : ∀ data ∈ msgs, isReadable (p.train (trainKey data)) = true)
    (hrun : trainMoves.run o (msgs.map moveOf) = some o') :
    (p.transitions msgs).trains = p.trains ∧ Renders (p.transitions msgs) o' := by
  rw [transitions_eq_foldl]
  refine trainMoves.run_simulation
    (R := fun q o₁ => q.trains = p.trains ∧ Renders q o₁) ?_ ⟨rfl, hrenders⟩ hrun
  intro data hdata q o₁ o₂ hq hmove
  have hreadable : isReadable (q.train (trainKey data)) = true := by
    rw [train_congr hq.1]
    exact hknown data hdata
  exact ⟨by rw [transition_trains hreadable, hq.1], renders_transition hq.2 hreadable hmove⟩

/-! ## Nothing is lost and nothing is shown twice -/

/-- `q` shows `o'`, with the trains of `p` and `o`, each in one block, and as many labels. -/
structure Conserved (p q : Page) (o o' : Occupancy String String) : Prop where
  /-- The table is the same. -/
  trains : q.trains = p.trains
  /-- The display shows the occupancy. -/
  renders : Renders q o'
  /-- A train that was shown is shown in exactly one block, as before. -/
  shown : ∀ k b, o.holder b = some k →
    ∃! b', o'.holder b' = some k ∧ q.svg.tspan b' = p.svg.tspan b
  /-- The labels that are not empty are those of the trains. -/
  visible : ∀ b, q.svg.tspan b ≠ "" ↔ ∃ k, o'.holder b = some k
  /-- As many labels are not empty. -/
  occupied : {b | q.svg.tspan b ≠ ""}.encard = {b | p.svg.tspan b ≠ ""}.encard
  /-- Each text is the label of as many blocks. -/
  labels : ∀ text, {b | q.svg.tspan b = text}.encard = {b | p.svg.tspan b = text}.encard

/-- A display of rearranged trains has its labels rearranged. -/
theorem tspan_rearranged {p q : Page} {o o' : Occupancy String String} {π : Equiv.Perm String}
    (htrains : q.trains = p.trains) (hp : Renders p o) (hq : Renders q o')
    (hπ : ∀ b, o'.holder b = o.holder (π b)) (b : String) :
    q.svg.tspan b = p.svg.tspan (π b) := by
  rw [hq b, hp (π b), hπ b, labelOf_congr htrains]

theorem conserved_run {p : Page} {o o' : Occupancy String String} {msgs : List Fields}
    (hrenders : Renders p o)
    (hknown : ∀ data ∈ msgs, isReadable (p.train (trainKey data)) = true)
    (hrun : trainMoves.run o (msgs.map moveOf) = some o') :
    Conserved p (p.transitions msgs) o o' := by
  obtain ⟨htrains, hrenders'⟩ := renders_run hrenders hknown hrun
  obtain ⟨π, hπ⟩ := Occupancy.run_perm hrun
  have htspan : ∀ b, (p.transitions msgs).svg.tspan b = p.svg.tspan (π b) :=
    tspan_rearranged htrains hrenders hrenders' hπ
  refine ⟨htrains, hrenders', ?_, hrenders'.ne_empty_iff, ?_, ?_⟩
  · intro k b hb
    obtain ⟨b', hb', hunique⟩ := Occupancy.run_unique_place hrun hb
    have hlabel : (p.transitions msgs).svg.tspan b' = p.svg.tspan b := by
      rw [hrenders' b', hrenders b, hb', hb, labelOf_congr htrains]
    exact ⟨b', ⟨hb', hlabel⟩, fun c hc => hunique c hc.1⟩
  · simp only [htspan]
    exact Occupancy.encard_rearranged π (fun b => p.svg.tspan b ≠ "")
  · intro text
    simp only [htspan]
    exact Occupancy.encard_rearranged π (fun b => p.svg.tspan b = text)

theorem transitions_snoc (p : Page) (before : List Fields) (data : Fields) :
    p.transitions (before ++ [data])
      = (p.transitions before).receive (ControlMessage.transition data).parsed := by
  unfold Page.transitions
  rw [List.map_append, Page.control_append]
  rfl

/--
**Transitions neither lose nor duplicate a train.**

On a display that shows an occupancy, along every run of transitions that are moves
of known trains: at every point of the run the display shows the moved occupancy,
with every train in exactly one block and as many labels as before; and each step
leaves the blocks it does not name as they were.
-/
theorem transitions_conserve {p : Page} {o o' : Occupancy String String} {msgs : List Fields}
    (hrenders : Renders p o)
    (hknown : ∀ data ∈ msgs, isReadable (p.train (trainKey data)) = true)
    (hrun : trainMoves.run o (msgs.map moveOf) = some o') :
    (∀ before, before <+: msgs →
        ∃ o₁, trainMoves.run o (before.map moveOf) = some o₁
          ∧ Conserved p (p.transitions before) o o₁)
      ∧ ∀ before data, before ++ [data] <+: msgs →
          ∀ b, b ≠ (data.field "fromBlock").toText → b ≠ (data.field "toBlock").toText →
            (p.transitions (before ++ [data])).svg.tspan b
              = (p.transitions before).svg.tspan b := by
  have hall : ∀ before, before <+: msgs →
      ∃ o₁, trainMoves.run o (before.map moveOf) = some o₁
        ∧ Conserved p (p.transitions before) o o₁ := by
    rintro before ⟨rest, rfl⟩
    rw [List.map_append] at hrun
    obtain ⟨o₁, ho₁, _⟩ := (System.run_append_eq_some trainMoves).mp hrun
    have hknown₁ : ∀ data ∈ before, isReadable (p.train (trainKey data)) = true := by
      intro data hdata
      exact hknown data (List.mem_append_left rest hdata)
    exact ⟨o₁, ho₁, conserved_run hrenders hknown₁ ho₁⟩
  refine ⟨hall, ?_⟩
  intro before data hpre b hsource htarget
  obtain ⟨_, _, hbefore⟩ := hall before ((List.prefix_append before [data]).trans hpre)
  have hreadable : isReadable ((p.transitions before).train (trainKey data)) = true := by
    rw [train_congr hbefore.trains]
    exact hknown data (hpre.subset (by simp))
  rw [transitions_snoc, transition_tspan hreadable,
    if_neg (show b ≠ (moveOf data).source from hsource),
    if_neg (show b ≠ (moveOf data).target from htarget)]

/-- A transition, as it stands in a message. -/
def transitionItem (trainId fromBlock toBlock : String) : Fields :=
  [("trainId", .number trainId), ("fromBlock", .number fromBlock), ("toBlock", .number toBlock)]

/-- Train 7 in block 1. -/
def trainInBlock : Occupancy String String where
  holder := fun b => if b = "1" then some "7" else none
  once := by
    intro a b t ha hb
    split at ha
    · rename_i h1
      split at hb
      · rename_i h2
        rw [h1, h2]
      · exact absurd hb (by simp)
    · exact absurd ha (by simp)

/-- Train 7 goes from block 1 to block 2, and back into the block it has left. -/
theorem transitions_conserve_back :
    ((∀ before, before <+: [transitionItem "7" "1" "2", transitionItem "7" "2" "1"] →
        ∃ o₁, trainMoves.run trainInBlock (before.map moveOf) = some o₁
          ∧ Conserved (pageWithTrain.labelled "1" "12 >>")
              ((pageWithTrain.labelled "1" "12 >>").transitions before) trainInBlock o₁)
      ∧ ∀ before data,
          before ++ [data] <+: [transitionItem "7" "1" "2", transitionItem "7" "2" "1"] →
          ∀ b, b ≠ (data.field "fromBlock").toText → b ≠ (data.field "toBlock").toText →
            ((pageWithTrain.labelled "1" "12 >>").transitions (before ++ [data])).svg.tspan b
              = ((pageWithTrain.labelled "1" "12 >>").transitions before).svg.tspan b) := by
  have hrenders : Renders (pageWithTrain.labelled "1" "12 >>") trainInBlock := by
    intro b
    rw [labelled_tspan]
    by_cases hb : b = "1"
    · rw [if_pos hb, hb]
      rfl
    · rw [if_neg hb, trainInBlock]
      dsimp only
      rw [if_neg hb]
      rfl
  have hknown : ∀ data ∈ [transitionItem "7" "1" "2", transitionItem "7" "2" "1"],
      isReadable ((pageWithTrain.labelled "1" "12 >>").train (trainKey data)) = true := by
    intro data hdata
    rcases List.mem_cons.mp hdata with rfl | hdata
    · rfl
    · rw [List.mem_singleton.mp hdata]
      rfl
  have hrun : trainMoves.run trainInBlock
      ([transitionItem "7" "1" "2", transitionItem "7" "2" "1"].map moveOf)
        = some ((trainInBlock.exchange "1" "2").exchange "2" "1") := rfl
  exact transitions_conserve hrenders hknown hrun

end MobaDisplay
