import Mathlib.Data.List.TakeWhile

/-!
# A hub that copies what is sent to everyone inside

Members come and go, and each thing sent goes to the members inside at that
moment. A history is the list of these events, and everything a member is owed can
be read off it: `stretch` is what was sent between its joining and its leaving.

`stretch_snoc` says what one more event adds, which is what a proof about a machine
that implements a hub uses at every step; `sends_split` and `stretch_infix` say how
the stretch lies in everything that was sent.
-/

namespace Hub

variable {ι α : Type}

/-- What happens at a hub. -/
inductive Event (ι α : Type) where
  | join (i : ι)
  | leave (i : ι)
  | send (x : α)

/-- Everything sent, in order. -/
def sends : List (Event ι α) → List α
  | [] => []
  | .join _ :: h => sends h
  | .leave _ :: h => sends h
  | .send x :: h => x :: sends h

theorem sends_append (h k : List (Event ι α)) : sends (h ++ k) = sends h ++ sends k := by
  induction h with
  | nil => rfl
  | cons e h ih => cases e <;> simp [sends, ih]

variable [DecidableEq ι]

def isJoin (i : ι) : Event ι α → Bool
  | .join j => decide (j = i)
  | _ => false

def isLeave (i : ι) : Event ι α → Bool
  | .leave j => decide (j = i)
  | _ => false

/-- The history from the joining of `i` on. -/
def since (i : ι) (h : List (Event ι α)) : List (Event ι α) := h.dropWhile (fun e => !isJoin i e)

/-- What was sent before `i` joined. -/
def before (i : ι) (h : List (Event ι α)) : List α := sends (h.takeWhile (fun e => !isJoin i e))

/-- What was sent between the joining of `i` and its leaving. -/
def stretch (i : ι) (h : List (Event ι α)) : List α :=
  sends ((since i h).takeWhile (fun e => !isLeave i e))

/-- What was sent after `i` had left. -/
def missed (i : ι) (h : List (Event ι α)) : List α :=
  sends ((since i h).dropWhile (fun e => !isLeave i e))

def joined (i : ι) (h : List (Event ι α)) : Bool := h.any (isJoin i)

def left (i : ι) (h : List (Event ι α)) : Bool := (since i h).any (isLeave i)

/-- `i` has joined and not left. -/
def inside (i : ι) (h : List (Event ι α)) : Bool := joined i h && !left i h

/-! ## The stretch in all that was sent -/

/-- **Everything sent is what came before, the stretch, and what was missed.** -/
theorem sends_split (i : ι) (h : List (Event ι α)) :
    sends h = before i h ++ stretch i h ++ missed i h := by
  rw [before, stretch, missed, List.append_assoc, ← sends_append, List.takeWhile_append_dropWhile,
    since, ← sends_append, List.takeWhile_append_dropWhile]

/-- **The stretch is contiguous.** -/
theorem stretch_infix (i : ι) (h : List (Event ι α)) : stretch i h <:+: sends h :=
  ⟨before i h, missed i h, (sends_split i h).symm⟩

/-! ## One more event -/

omit [DecidableEq ι] in
/-- What stops a search in a list stops it in a longer one. -/
theorem takeWhile_append_of_stop {p : Event ι α → Bool} {h : List (Event ι α)} {e : Event ι α}
    (he : e ∈ h) (hp : p e = false) (k : List (Event ι α)) :
    (h ++ k).takeWhile p = h.takeWhile p := by
  have hlen : ¬ (h.takeWhile p).length = h.length := by
    intro hlen
    have hall : h.takeWhile p = h := (List.takeWhile_prefix p).eq_of_length hlen
    have hstop : p e = true := List.mem_takeWhile_imp (hall.symm ▸ he)
    rw [hp] at hstop
    exact Bool.noConfusion hstop
  rw [List.takeWhile_append, if_neg hlen]

theorem joined_snoc (i : ι) (h : List (Event ι α)) (e : Event ι α) :
    joined i (h ++ [e]) = (joined i h || isJoin i e) := by
  simp [joined]

theorem since_of_not_joined {i : ι} {h : List (Event ι α)} (hj : joined i h = false) :
    since i h = [] := by
  unfold since
  rw [List.dropWhile_eq_nil_iff]
  intro e he
  unfold joined at hj
  rw [List.any_eq_false] at hj
  simp [hj e he]

theorem since_ne_nil {i : ι} {h : List (Event ι α)} (hj : joined i h = true) :
    since i h ≠ [] := by
  intro hnil
  unfold since at hnil
  rw [List.dropWhile_eq_nil_iff] at hnil
  obtain ⟨e, he, hjoin⟩ := List.any_eq_true.mp hj
  have hnot := hnil e he
  rw [hjoin] at hnot
  exact Bool.noConfusion hnot

theorem since_snoc (i : ι) (h : List (Event ι α)) (e : Event ι α) :
    since i (h ++ [e])
      = if joined i h then since i h ++ [e] else if isJoin i e then [e] else [] := by
  cases hj : joined i h with
  | false =>
      have hnil := since_of_not_joined hj
      unfold since at hnil
      unfold since
      rw [List.dropWhile_append, hnil]
      cases hje : isJoin i e <;> simp [hje]
  | true =>
      have hne := since_ne_nil hj
      unfold since at hne
      unfold since
      rw [List.dropWhile_append, if_neg (by simpa using hne)]
      rfl

theorem left_snoc (i : ι) (h : List (Event ι α)) (e : Event ι α) :
    left i (h ++ [e]) = (joined i h && (left i h || isLeave i e)) := by
  unfold left
  rw [since_snoc]
  cases hj : joined i h with
  | true => simp
  | false =>
      cases e with
      | join j => by_cases hji : j = i <;> simp [isJoin, isLeave, hji]
      | leave j => simp [isJoin]
      | send x => simp [isJoin]

/-- Who has joined stays until it leaves; who has not comes in by joining. -/
theorem inside_snoc (i : ι) (h : List (Event ι α)) (e : Event ι α) :
    inside i (h ++ [e])
      = if joined i h then inside i h && !isLeave i e else isJoin i e := by
  unfold inside
  rw [joined_snoc, left_snoc]
  cases hj : joined i h with
  | true => simp
  | false => simp

theorem inside_of_not_joined {i : ι} {h : List (Event ι α)} (hj : joined i h = false) :
    inside i h = false := by
  unfold inside
  rw [hj]
  rfl

/-- To be inside is to have stayed, or to have just joined. -/
theorem inside_snoc_iff (i : ι) (h : List (Event ι α)) (e : Event ι α) :
    inside i (h ++ [e]) = ((inside i h && !isLeave i e) || (isJoin i e && !joined i h)) := by
  rw [inside_snoc]
  cases hj : joined i h with
  | true => simp
  | false => simp [inside_of_not_joined hj]

theorem inside_join (i j : ι) (h : List (Event ι α)) :
    inside i (h ++ [.join j]) = (inside i h || (decide (j = i) && !joined i h)) := by
  rw [inside_snoc_iff]
  simp [isLeave, isJoin]

theorem inside_leave (i j : ι) (h : List (Event ι α)) :
    inside i (h ++ [.leave j]) = (inside i h && !decide (j = i)) := by
  rw [inside_snoc_iff]
  simp [isLeave, isJoin]

theorem inside_send (i : ι) (x : α) (h : List (Event ι α)) :
    inside i (h ++ [.send x]) = inside i h := by
  rw [inside_snoc_iff]
  simp [isLeave, isJoin]

/-- **What one more event adds to the stretch**: what is sent, for those inside. -/
theorem stretch_snoc (i : ι) (h : List (Event ι α)) (e : Event ι α) :
    stretch i (h ++ [e]) = stretch i h ++ (if inside i h then sends [e] else []) := by
  unfold stretch
  rw [since_snoc]
  cases hj : joined i h with
  | false =>
      rw [since_of_not_joined hj]
      cases e with
      | join j => by_cases hji : j = i <;> simp [isJoin, isLeave, hji, sends]
      | leave j => simp [isJoin, inside_of_not_joined hj, sends]
      | send x => simp [isJoin, inside_of_not_joined hj, sends]
  | true =>
      rw [if_pos rfl]
      cases hl : left i h with
      | true =>
          -- the leaving stands in the part that was there already
          have hout : inside i h = false := by simp [inside, hl]
          unfold left at hl
          obtain ⟨e', he', hleave⟩ := List.any_eq_true.mp hl
          rw [takeWhile_append_of_stop he' (by simp [hleave]), hout]
          simp
      | false =>
          have hstay : ∀ e' ∈ since i h, (!isLeave i e') = true := by
            intro e' he'
            unfold left at hl
            rw [List.any_eq_false] at hl
            simp [hl e' he']
          have hall : (since i h).takeWhile (fun e => !isLeave i e) = since i h :=
            List.takeWhile_eq_self_iff.mpr hstay
          rw [List.takeWhile_append_of_pos hstay, hall, sends_append]
          cases e with
          | join j => simp [isLeave, sends]
          | leave j => by_cases hji : j = i <;> simp [isLeave, hji, sends]
          | send x => simp [isLeave, inside, hj, hl, sends]

theorem before_snoc_of_joined {i : ι} {h : List (Event ι α)} (hj : joined i h = true)
    (e : Event ι α) : before i (h ++ [e]) = before i h := by
  unfold joined at hj
  obtain ⟨e', he', hjoin⟩ := List.any_eq_true.mp hj
  unfold before
  rw [takeWhile_append_of_stop he' (by simp [hjoin])]

/-- Nothing is owed to someone who has not joined. -/
theorem stretch_of_not_joined {i : ι} {h : List (Event ι α)} (hj : joined i h = false) :
    stretch i h = [] := by
  unfold stretch
  rw [since_of_not_joined hj]
  rfl

theorem before_prefix (i : ι) (h : List (Event ι α)) : before i h <+: sends h :=
  ⟨stretch i h ++ missed i h, by rw [← List.append_assoc, ← sends_split]⟩

end Hub
