import MobaDisplay.Proof.Blocks
import Mathlib.Data.List.Perm.Basic

/-!
# Block lists with trains that are not in the table

An item that names a train the table does not have ends the block loop, so that
the items after it are not shown. The rest of the page takes such things as they
come: a switch position it does not know is no graphic, a block that is not drawn
is not written, an item without a train is passed over.

What an item alone leaves in its block depends on the item, the table and the label
that was there. The items of a list disturb each other where the list leaves
something else.
-/

namespace MobaDisplay

open Js Script

/-- The label in the block of an item after a block list. -/
def Page.labelAfter (p : Page) (items : List Fields) (item : Fields) : String :=
  (p.receive (ControlMessage.blockList items).parsed).svg.tspan (idText item)

/-- After the list, every block shows what its item alone makes it show. -/
def Undisturbed (p : Page) (items : List Fields) : Prop :=
  ∀ item ∈ items, p.labelAfter items item = p.labelAfter [item] item

/-- The item names a train of the table. -/
def Page.namesKnown (p : Page) (item : Fields) : Bool :=
  namesTrain item && isReadable (p.train (trainKey item))

/-- If the item names a train of the table, its block shows that train. -/
def ShownAlready (p : Page) (item : Fields) : Prop :=
  p.namesKnown item = true → p.svg.tspan (idText item) = p.trainText (trainKey item)

theorem namesKnown_of_unknown {p : Page} {item : Fields} (h : p.knows item = false) :
    p.namesKnown item = false := by
  simp only [Page.knows, Bool.or_eq_false_iff, Bool.not_eq_false'] at h
  simp [Page.namesKnown, h.2]

theorem shownAlready_of_unknown {p : Page} {item : Fields} (h : p.knows item = false) :
    ShownAlready p item := by
  intro hnames
  rw [namesKnown_of_unknown h] at hnames
  exact Bool.noConfusion hnames

theorem namesKnown_of_known {p : Page} {item : Fields} (h : p.knows item = true) :
    p.namesKnown item = namesTrain item := by
  unfold Page.namesKnown
  unfold Page.knows at h
  cases hnames : namesTrain item with
  | false => rfl
  | true =>
      rw [hnames] at h
      simpa using h

/-! ## One item, and a list whose trains are all known -/

/-- **A list without unknown trains** shows every train that is named. -/
theorem labelAfter_known {p : Page} {items : List Fields} (hids : (items.map idText).Nodup)
    (h : ∀ item ∈ items, p.knows item = true) {item : Fields} (hitem : item ∈ items) :
    p.labelAfter items item
      = if p.namesKnown item then p.trainText (trainKey item) else p.svg.tspan (idText item) := by
  rw [namesKnown_of_known (h item hitem)]
  exact blockList_listed hids h hitem

/-- **A list with an unknown train** is what stands in front of it, and no more. -/
theorem labelAfter_cut {p : Page} {before rest : List Fields} {bad : Fields}
    (h : ∀ i ∈ before, p.knows i = true) (hbad : p.knows bad = false) (item : Fields) :
    p.labelAfter (before ++ bad :: rest) item
      = (before.foldl showBlock p).svg.tspan (idText item) := by
  unfold Page.labelAfter Page.receive
  rw [after_error (onmessage_blockList_error h hbad)]

theorem labelAfter_before {p : Page} {before rest : List Fields} {bad item : Fields}
    (hids : ((before ++ bad :: rest).map idText).Nodup) (h : ∀ i ∈ before, p.knows i = true)
    (hbad : p.knows bad = false) (hitem : item ∈ before) :
    p.labelAfter (before ++ bad :: rest) item
      = if p.namesKnown item then p.trainText (trainKey item) else p.svg.tspan (idText item) := by
  have hbefore : (before.map idText).Nodup := by
    rw [List.map_append] at hids
    exact hids.of_append_left
  rw [labelAfter_cut h hbad, foldl_showBlock_listed hbefore hitem,
    namesKnown_of_known (h item hitem)]

/-- The blocks of the items that are not reached keep their labels. -/
theorem labelAfter_cutOff {p : Page} {before rest : List Fields} {bad item : Fields}
    (hids : ((before ++ bad :: rest).map idText).Nodup) (h : ∀ i ∈ before, p.knows i = true)
    (hbad : p.knows bad = false) (hitem : item ∈ bad :: rest) :
    p.labelAfter (before ++ bad :: rest) item = p.svg.tspan (idText item) := by
  -- the ids are distinct, so none of the items in front writes this block
  have hdistinct : ∀ other ∈ before, idText other ≠ idText item := by
    intro other hother
    rw [List.map_append, List.nodup_append] at hids
    exact hids.2.2 _ (List.mem_map_of_mem hother) _ (List.mem_map_of_mem hitem)
  rw [labelAfter_cut h hbad, foldl_showBlock_unlisted hdistinct]

/-- What an item alone leaves in its block. -/
theorem labelAfter_alone (p : Page) (item : Fields) :
    p.labelAfter [item] item
      = if p.namesKnown item then p.trainText (trainKey item) else p.svg.tspan (idText item) := by
  have hids : (([] ++ [item]).map idText).Nodup := List.nodup_singleton _
  cases hknows : p.knows item with
  | true =>
      refine labelAfter_known hids ?_ (List.mem_singleton_self item)
      intro i hi
      rw [List.mem_singleton.mp hi]
      exact hknows
  | false =>
      have hsame := labelAfter_cutOff hids (by simp) hknows (List.mem_singleton_self item)
      rw [namesKnown_of_unknown hknows]
      exact hsame

/-- It depends on the item, the table and the label that was there, on nothing else. -/
theorem labelAfter_alone_congr {p p' : Page} {item : Fields} (htrains : p'.trains = p.trains)
    (hlabel : p'.svg.tspan (idText item) = p.svg.tspan (idText item)) :
    p'.labelAfter [item] item = p.labelAfter [item] item := by
  have hnames : p'.namesKnown item = p.namesKnown item := by
    unfold Page.namesKnown
    rw [train_congr htrains]
  rw [labelAfter_alone, labelAfter_alone, hnames, hlabel, trainText_congr htrains]

/-- The item alone changes nothing exactly if its block shows its train already. -/
theorem labelAfter_alone_eq_iff {p : Page} {item : Fields} :
    p.labelAfter [item] item = p.svg.tspan (idText item) ↔ ShownAlready p item := by
  rw [labelAfter_alone]
  unfold ShownAlready
  by_cases hnames : p.namesKnown item = true
  · rw [if_pos hnames]
    refine ⟨?_, ?_⟩
    · intro h _
      exact h.symm
    · intro h
      exact (h hnames).symm
  · rw [if_neg hnames]
    refine ⟨?_, ?_⟩
    · intro _ h
      exact absurd h hnames
    · intro _
      rfl

/-! ## When the items disturb each other -/

theorem undisturbed_of_known {p : Page} {items : List Fields} (hids : (items.map idText).Nodup)
    (h : ∀ item ∈ items, p.knows item = true) : Undisturbed p items := by
  intro item hitem
  rw [labelAfter_known hids h hitem, labelAfter_alone]

/-- After the first unknown train, nothing may be left to show. -/
theorem undisturbed_cut_iff {p : Page} {before rest : List Fields} {bad : Fields}
    (hids : ((before ++ bad :: rest).map idText).Nodup) (h : ∀ i ∈ before, p.knows i = true)
    (hbad : p.knows bad = false) :
    Undisturbed p (before ++ bad :: rest) ↔ ∀ item ∈ rest, ShownAlready p item := by
  refine ⟨?_, ?_⟩
  · intro hundisturbed item hitem
    have hmem : item ∈ bad :: rest := List.mem_cons_of_mem bad hitem
    have hsame := hundisturbed item (List.mem_append_right before hmem)
    rw [labelAfter_cutOff hids h hbad hmem] at hsame
    exact labelAfter_alone_eq_iff.mp hsame.symm
  · intro hshown item hitem
    rcases List.mem_append.mp hitem with hbefore | hcut
    · rw [labelAfter_before hids h hbad hbefore, labelAfter_alone]
    · rw [labelAfter_cutOff hids h hbad hcut]
      refine (labelAfter_alone_eq_iff.mpr ?_).symm
      rcases List.mem_cons.mp hcut with rfl | hrest
      · exact shownAlready_of_unknown hbad
      · exact hshown item hrest

/-- No item has a known train to show after one whose train is unknown. -/
def NothingCutOff (p : Page) (items : List Fields) : Prop :=
  items.Pairwise (fun earlier later => p.knows earlier = true ∨ ShownAlready p later)

theorem nothingCutOff_of_known {p : Page} {items : List Fields}
    (h : ∀ item ∈ items, p.knows item = true) : NothingCutOff p items := by
  refine List.pairwise_of_forall_mem_list ?_
  intro earlier hearlier later _
  exact Or.inl (h earlier hearlier)

theorem nothingCutOff_cut_iff {p : Page} {before rest : List Fields} {bad : Fields}
    (h : ∀ i ∈ before, p.knows i = true) (hbad : p.knows bad = false) :
    NothingCutOff p (before ++ bad :: rest) ↔ ∀ item ∈ rest, ShownAlready p item := by
  unfold NothingCutOff
  rw [List.pairwise_append, List.pairwise_cons]
  refine ⟨?_, ?_⟩
  · rintro ⟨_, ⟨hrest, _⟩, _⟩ item hitem
    rcases hrest item hitem with hknows | hshown
    · rw [hbad] at hknows
      exact Bool.noConfusion hknows
    · exact hshown
  · intro hshown
    refine ⟨nothingCutOff_of_known h, ⟨?_, ?_⟩, ?_⟩
    · intro item hitem
      exact Or.inr (hshown item hitem)
    · refine List.pairwise_of_forall_mem_list ?_
      intro _ _ later hlater
      exact Or.inr (hshown later hlater)
    · intro earlier hearlier _ _
      exact Or.inl (h earlier hearlier)

theorem undisturbed_iff {p : Page} {items : List Fields} (hids : (items.map idText).Nodup) :
    Undisturbed p items ↔ NothingCutOff p items := by
  by_cases h : ∀ item ∈ items, p.knows item = true
  · exact ⟨fun _ => nothingCutOff_of_known h, fun _ => undisturbed_of_known hids h⟩
  · obtain ⟨before, bad, rest, rfl, hbefore, hbad⟩ := exists_first_not h
    rw [undisturbed_cut_iff hids hbefore hbad, nothingCutOff_cut_iff hbefore hbad]

/-- **Whatever the order of the list**: with an unknown train, any other item can come last. -/
theorem undisturbed_orders_iff {p : Page} {items : List Fields}
    (hids : (items.map idText).Nodup) :
    (∀ order, order.Perm items → Undisturbed p order)
      ↔ (∀ item ∈ items, p.knows item = true) ∨ ∀ item ∈ items, ShownAlready p item := by
  refine ⟨?_, ?_⟩
  · intro horders
    by_cases h : ∀ item ∈ items, p.knows item = true
    · exact Or.inl h
    · right
      obtain ⟨before, bad, rest, rfl, _, hbad⟩ := exists_first_not h
      -- the unknown train in front
      have hfront : (bad :: (before ++ rest)).Perm (before ++ bad :: rest) :=
        List.perm_middle.symm
      have hids' : (([] ++ bad :: (before ++ rest)).map idText).Nodup :=
        (hfront.map idText).nodup_iff.mpr hids
      have hshown := (undisturbed_cut_iff hids' (by simp) hbad).mp (horders _ hfront)
      intro item hitem
      rcases List.mem_cons.mp (hfront.mem_iff.mpr hitem) with rfl | hother
      · exact shownAlready_of_unknown hbad
      · exact hshown item hother
  · intro h order hperm
    have hids' : (order.map idText).Nodup := (hperm.map idText).nodup_iff.mpr hids
    rcases h with hknown | hshown
    · exact undisturbed_of_known hids' (fun item hitem => hknown item (hperm.mem_iff.mp hitem))
    · rw [undisturbed_iff hids']
      refine List.pairwise_of_forall_mem_list ?_
      intro _ _ later hlater
      exact Or.inr (hshown later (hperm.mem_iff.mp hlater))

end MobaDisplay
