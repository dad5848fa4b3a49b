import MobaDisplay.Lib.LastWrite
import MobaDisplay.Page.Control
import Mathlib.Data.List.Nodup

/-!
# What the blocks of a block list show

The block loop writes the label of every block whose item names a train, and
nothing else: an item without a train leaves the label that was there. So after a
block list a block shows its train, but a free block shows whatever it showed
before, and two pages agree on it only if they did so already.
-/

namespace MobaDisplay

open Js Script LastWrite

/-- The item reports a train: `trainId` is there, whatever it is. -/
def hasTrain (item : Fields) : Bool := isReadable (item.field "trainId")

/-- The label the occupancy an item reports asks for. -/
def Page.expectedLabel (p : Page) (item : Fields) : String :=
  if hasTrain item then p.trainText (trainKey item) else ""

/-- `q` is `p` with the blocks of a list showing the reported occupancy. -/
structure ShowsBlockList (p q : Page) (items : List Fields) : Prop where
  /-- Every block of the list shows its train, or nothing. -/
  listed : ∀ item ∈ items, q.svg.tspan (idText item) = p.expectedLabel item
  /-- Every other block shows what it showed before. -/
  unlisted : ∀ b, (∀ item ∈ items, idText item ≠ b) → q.svg.tspan b = p.svg.tspan b

/-! ## The labels behind the block loop -/

theorem hasTrain_of_namesTrain {item : Fields} (h : namesTrain item = true) :
    hasTrain item = true := by
  unfold namesTrain at h
  unfold hasTrain
  cases htrain : item.field "trainId" with
  | undefined => rw [htrain] at h; exact Bool.noConfusion h
  | null => rw [htrain] at h; exact Bool.noConfusion h
  | _ => rfl

theorem expectedLabel_of_namesTrain {item : Fields} (h : namesTrain item = true) (p : Page) :
    p.expectedLabel item = p.trainText (trainKey item) :=
  if_pos (hasTrain_of_namesTrain h)

/-- The item writes the label of block `b`. -/
def labels (b : String) (item : Fields) : Bool := namesTrain item && idText item == b

/-- The last item that names a train for a block decides what the block shows. -/
theorem foldl_showBlock_tspan (b : String) (items : List Fields) (p : Page) :
    (items.foldl showBlock p).svg.tspan b
      = ((last (labels b) items).map (fun item => p.trainText (trainKey item))).getD
          (p.svg.tspan b) := by
  -- the texts are read from a table the loop keeps
  refine foldl_view (v := fun q : Page => q.svg.tspan b) (I := fun q => q.trains = p.trains)
    (fun q item hq => ⟨?_, ?_⟩) items rfl
  · have htext : q.trainText (trainKey item) = p.trainText (trainKey item) :=
      trainText_congr hq _
    by_cases hnames : namesTrain item = true
    · by_cases hb : idText item = b
      · simp [labels, showBlock, hnames, hb, labelled_tspan, htext]
      · simp [labels, showBlock, hnames, hb, labelled_tspan, Ne.symm hb]
    · simp [labels, showBlock, hnames]
  · rw [showBlock_trains, hq]

/-- The switch loop writes no label. -/
theorem receive_blockList_tspan {items : List Fields} {p : Page}
    (h : ∀ item ∈ items, p.knows item = true) (b : String) :
    (p.receive (ControlMessage.blockList items).parsed).svg.tspan b
      = (items.foldl showBlock p).svg.tspan b := by
  rw [receive_blockList h, (foldl_showSwitch_svg items _).2]

/-! ## Lists in which every id stands once -/

/-- With distinct ids, the item of a block is the only one that can write its label. -/
theorem last_labels {items : List Fields} {item : Fields} (hids : (items.map idText).Nodup)
    (hitem : item ∈ items) :
    last (labels (idText item)) items = if namesTrain item then some item else none := by
  have honly : ∀ other ∈ items, labels (idText item) other = true → other = item := by
    intro other hother hlabels
    simp only [labels, Bool.and_eq_true, beq_iff_eq] at hlabels
    exact List.inj_on_of_nodup_map hids hother hitem hlabels.2
  by_cases hnames : namesTrain item = true
  · rw [if_pos hnames]
    exact last_eq_of_unique hitem (by simp [labels, hnames]) honly
  · rw [if_neg hnames, last_eq_none_iff]
    intro other hother
    by_contra hlabels
    rw [Bool.not_eq_false] at hlabels
    obtain rfl := honly other hother hlabels
    simp only [labels, Bool.and_eq_true] at hlabels
    exact hnames hlabels.1

/-- What the loop leaves in a listed block: its train, or what was there before. -/
theorem foldl_showBlock_listed {items : List Fields} {item : Fields}
    (hids : (items.map idText).Nodup) (hitem : item ∈ items) (p : Page) :
    (items.foldl showBlock p).svg.tspan (idText item)
      = if namesTrain item then p.trainText (trainKey item) else p.svg.tspan (idText item) := by
  rw [foldl_showBlock_tspan, last_labels hids hitem]
  by_cases hnames : namesTrain item = true
  · rw [if_pos hnames, if_pos hnames]
    rfl
  · rw [if_neg hnames, if_neg hnames]
    rfl

theorem foldl_showBlock_unlisted {items : List Fields} {b : String}
    (hb : ∀ item ∈ items, idText item ≠ b) (p : Page) :
    (items.foldl showBlock p).svg.tspan b = p.svg.tspan b := by
  have hnone : last (labels b) items = none := by
    rw [last_eq_none_iff]
    intro item hitem
    simp [labels, hb item hitem]
  rw [foldl_showBlock_tspan, hnone]
  rfl

/-- **What a listed block shows**: its train, or what it showed before. -/
theorem blockList_listed {items : List Fields} {p : Page} (hids : (items.map idText).Nodup)
    (h : ∀ item ∈ items, p.knows item = true) {item : Fields} (hitem : item ∈ items) :
    (p.receive (ControlMessage.blockList items).parsed).svg.tspan (idText item)
      = if namesTrain item then p.trainText (trainKey item) else p.svg.tspan (idText item) := by
  rw [receive_blockList_tspan h, foldl_showBlock_listed hids hitem]

theorem blockList_unlisted {items : List Fields} {p : Page}
    (h : ∀ item ∈ items, p.knows item = true) {b : String}
    (hb : ∀ item ∈ items, idText item ≠ b) :
    (p.receive (ControlMessage.blockList items).parsed).svg.tspan b = p.svg.tspan b := by
  rw [receive_blockList_tspan h, foldl_showBlock_unlisted hb]

/-- Where every train that is there is in the table, the loop gets past every item. -/
theorem knows_of_keys {items : List Fields} {p : Page}
    (h : ∀ item ∈ items, hasTrain item = true → isReadable (p.train (trainKey item)) = true) :
    ∀ item ∈ items, p.knows item = true := by
  intro item hitem
  by_cases hnames : namesTrain item = true
  · simp [Page.knows, h item hitem (hasTrain_of_namesTrain hnames)]
  · simp [Page.knows, hnames]

/-- The display is that of the occupancy where every item without a train found it so. -/
theorem showsBlockList_iff {p : Page} {items : List Fields} (hids : (items.map idText).Nodup)
    (hknows : ∀ item ∈ items, p.knows item = true) :
    ShowsBlockList p (p.receive (ControlMessage.blockList items).parsed) items
      ↔ ∀ item ∈ items, namesTrain item = true
          ∨ p.svg.tspan (idText item) = p.expectedLabel item := by
  refine ⟨?_, ?_⟩
  · intro hshows item hitem
    by_cases hnames : namesTrain item = true
    · exact Or.inl hnames
    · have hlisted := hshows.listed item hitem
      rw [blockList_listed hids hknows hitem, if_neg hnames] at hlisted
      exact Or.inr hlisted
  · intro h
    refine ⟨?_, fun b hb => blockList_unlisted hknows hb⟩
    intro item hitem
    rw [blockList_listed hids hknows hitem]
    rcases h item hitem with hnames | hbefore
    · rw [if_pos hnames, expectedLabel_of_namesTrain hnames]
    · by_cases hnames : namesTrain item = true
      · rw [if_pos hnames, expectedLabel_of_namesTrain hnames]
      · rw [if_neg hnames]
        exact hbefore

/-- Two pages with one table agree where every item without a train found them agreeing. -/
theorem sameLabels_iff {p p' : Page} {items : List Fields} (hids : (items.map idText).Nodup)
    (hknows : ∀ item ∈ items, p.knows item = true) (htrains : p'.trains = p.trains) :
    (∀ item ∈ items,
        (p.receive (ControlMessage.blockList items).parsed).svg.tspan (idText item)
          = (p'.receive (ControlMessage.blockList items).parsed).svg.tspan (idText item))
      ↔ ∀ item ∈ items, namesTrain item = true
          ∨ p.svg.tspan (idText item) = p'.svg.tspan (idText item) := by
  have hknows' : ∀ item ∈ items, p'.knows item = true := by
    intro item hitem
    rw [knows_congr htrains]
    exact hknows item hitem
  -- both pages read the same texts from the table
  have htext : ∀ k, p'.trainText k = p.trainText k := trainText_congr htrains
  have hone : ∀ item ∈ items,
      ((p.receive (ControlMessage.blockList items).parsed).svg.tspan (idText item)
          = (p'.receive (ControlMessage.blockList items).parsed).svg.tspan (idText item)
        ↔ namesTrain item = true ∨ p.svg.tspan (idText item) = p'.svg.tspan (idText item)) := by
    intro item hitem
    rw [blockList_listed hids hknows hitem, blockList_listed hids hknows' hitem, htext]
    by_cases hnames : namesTrain item = true
    · simp [hnames]
    · simp [hnames]
  refine ⟨?_, ?_⟩
  · intro h item hitem
    exact (hone item hitem).mp (h item hitem)
  · intro h item hitem
    exact (hone item hitem).mpr (h item hitem)

/--
**When a block list makes the display equal to the occupancy.**

For a list with distinct ids whose trains are all in the table: exactly if every
item names a train, or its block shows the expected label beforehand. And two pages
with the same table agree on the listed blocks exactly if they agreed beforehand on
those whose item names no train.
-/
theorem block_list_shown_iff {p : Page} {items : List Fields} (hids : (items.map idText).Nodup)
    (hkeys : ∀ item ∈ items,
      hasTrain item = true → isReadable (p.train (trainKey item)) = true) :
    (ShowsBlockList p (p.receive (ControlMessage.blockList items).parsed) items
        ↔ ∀ item ∈ items, namesTrain item = true
            ∨ p.svg.tspan (idText item) = p.expectedLabel item)
      ∧ ∀ p' : Page, p'.trains = p.trains →
          ((∀ item ∈ items,
              (p.receive (ControlMessage.blockList items).parsed).svg.tspan (idText item)
                = (p'.receive (ControlMessage.blockList items).parsed).svg.tspan (idText item))
            ↔ ∀ item ∈ items, namesTrain item = true
                ∨ p.svg.tspan (idText item) = p'.svg.tspan (idText item)) := by
  have hknows := knows_of_keys hkeys
  exact ⟨showsBlockList_iff hids hknows, fun p' htrains => sameLabels_iff hids hknows htrains⟩

/-- A train and a block that holds it, as they stand in the lists. -/
def trainItem (id address direction : String) : Fields :=
  [("id", .number id), ("address", .number address), ("direction", .string direction)]

def blockItem (id trainId : String) : Fields := [("id", .number id), ("trainId", .number trainId)]

/-- A page that knows train 7, and block 1 with nothing in it. -/
def pageWithTrain : Page :=
  (Page.loaded ⟨fun _ => "", fun _ _ => true⟩).control [.trainList [trainItem "7" "12" "FORWARD"]]

theorem block_list_shown_iff_train :
    ShowsBlockList pageWithTrain
      (pageWithTrain.receive (ControlMessage.blockList [blockItem "1" "7"]).parsed)
      [blockItem "1" "7"] := by
  have hids : ([blockItem "1" "7"].map idText).Nodup := by decide
  have hkeys : ∀ item ∈ [blockItem "1" "7"], hasTrain item = true →
      isReadable (pageWithTrain.train (trainKey item)) = true := by
    intro item hitem _
    rw [List.mem_singleton.mp hitem]
    rfl
  have hnames : ∀ item ∈ [blockItem "1" "7"], namesTrain item = true := by
    intro item hitem
    rw [List.mem_singleton.mp hitem]
    rfl
  exact (block_list_shown_iff hids hkeys).1.mpr (fun item hitem => Or.inl (hnames item hitem))

/-- Train 7 stands in block 1; the next list reports block 1 as free, and it still shows. -/
theorem free_block_keeps_label :
    (pageWithTrain.control
        [.blockList [blockItem "1" "7"], .blockList [[("id", .number "1")]]]).svg.tspan "1"
      = "12 >>"
      ∧ ¬ ShowsBlockList (pageWithTrain.control [.blockList [blockItem "1" "7"]])
          (pageWithTrain.control [.blockList [blockItem "1" "7"], .blockList [[("id", .number "1")]]])
          [[("id", .number "1")]] := by
  have hstale : (pageWithTrain.control
      [.blockList [blockItem "1" "7"], .blockList [[("id", .number "1")]]]).svg.tspan "1"
        = "12 >>" := by decide
  refine ⟨hstale, ?_⟩
  intro h
  have hempty := h.listed [("id", .number "1")] (by simp)
  rw [show idText [("id", .number "1")] = "1" from rfl, hstale] at hempty
  exact absurd hempty (by decide)

end MobaDisplay
