import MobaDisplay.Lib.CxxString

/-!
# `std::getline` and the arithmetic of `std::size_t`

A stream is read line by line: a line is what stands in front of the next line feed,
or in front of the end if there is none, and there is no line where nothing is left.
-/

namespace Cxx

def lineFeed : UInt8 := 10

def carriageReturn : UInt8 := 13

def blank : UInt8 := 32

/-- `getline(stream, line)`: the line, and what is left; `none` where it fails. -/
def getline (stream : Bytes) : Option (Bytes × Bytes) :=
  if stream = [] then none
  else some (stream.takeWhile (· != lineFeed), (stream.dropWhile (· != lineFeed)).drop 1)

/-- `a - b`, which goes round below zero. -/
def sizeSub (a b : Nat) : Nat := if b ≤ a then a - b else a + 2 ^ 64 - b

theorem sizeSub_of_le {a b : Nat} (h : b ≤ a) : sizeSub a b = a - b := if_pos h

theorem takeWhile_ne_of_not_mem {a b : Bytes} {c : UInt8} (ha : c ∉ a) :
    (a ++ c :: b).takeWhile (· != c) = a := by
  rw [List.takeWhile_append_of_pos]
  · simp
  · intro x hx
    simpa using fun heq : x = c => ha (heq ▸ hx)

theorem dropWhile_ne_of_not_mem {a b : Bytes} {c : UInt8} (ha : c ∉ a) :
    (a ++ c :: b).dropWhile (· != c) = c :: b := by
  rw [List.dropWhile_append_of_pos]
  · simp
  · intro x hx
    simpa using fun heq : x = c => ha (heq ▸ hx)

/-- **A line that was written is the line that is read.** -/
theorem getline_line {line : Bytes} (h : lineFeed ∉ line) (rest : Bytes) :
    getline (line ++ lineFeed :: rest) = some (line, rest) := by
  unfold getline
  rw [if_neg (by simp), takeWhile_ne_of_not_mem h, dropWhile_ne_of_not_mem h]
  rfl

/-- Nothing of a stream gets lost between a line and the rest. -/
theorem getline_eq_some {stream line rest : Bytes} (h : getline stream = some (line, rest)) :
    lineFeed ∉ line ∧ (stream = line ++ lineFeed :: rest ∨ (stream = line ∧ rest = [])) := by
  by_cases hmem : lineFeed ∈ stream
  · obtain ⟨a, b, rfl, ha⟩ := split_at_first hmem
    rw [getline_line ha] at h
    cases h
    exact ⟨ha, .inl rfl⟩
  · have hall : ∀ x ∈ stream, (x != lineFeed) = true := by
      intro x hx
      simpa using fun heq : x = lineFeed => hmem (heq ▸ hx)
    obtain ⟨-, hpair⟩ := Option.ite_none_left_eq_some.mp h
    rw [List.takeWhile_eq_self_iff.mpr hall, List.dropWhile_eq_nil_iff.mpr hall] at hpair
    cases hpair
    exact ⟨hmem, .inr ⟨rfl, rfl⟩⟩

theorem getline_length {stream line rest : Bytes} (h : getline stream = some (line, rest)) :
    rest.length < stream.length := by
  rcases (getline_eq_some h).2 with rfl | ⟨rfl, rfl⟩
  · simp only [List.length_append, List.length_cons]
    omega
  · have hne : stream ≠ [] := (Option.ite_none_left_eq_some.mp h).1
    simpa using List.length_pos_iff.mpr hne

/-! ## Positions that are in range -/

theorem substr_of_le {s : Bytes} {pos : Nat} (h : pos ≤ s.length) (n : Nat) :
    substr s pos n = .ok ((s.drop pos).take n) := if_neg (by omega)

/-- What stands between two places of a text. -/
theorem substr_between (a b c : Bytes) : substr (a ++ (b ++ c)) a.length b.length = .ok b := by
  rw [substr_of_le (by simp), List.drop_left, List.take_left]

/-- A search that finds something splits the text there. -/
theorem find_eq_some {s : Bytes} {c : UInt8} {pos i : Nat} (h : find s c pos = some i) :
    ∃ a b, s.drop pos = a ++ c :: b ∧ c ∉ a ∧ i = pos + a.length := by
  have hmem : c ∈ s.drop pos := by
    by_contra hnot
    rw [find_eq_none_iff.mpr hnot] at h
    exact absurd h (by simp)
  obtain ⟨a, b, hsplit, ha⟩ := split_at_first hmem
  refine ⟨a, b, hsplit, ha, ?_⟩
  have hle : pos ≤ s.length := by
    by_contra hgt
    rw [List.drop_eq_nil_of_le (by omega)] at hmem
    exact absurd hmem (by simp)
  have hpos : (s.take pos).length = pos := List.length_take_of_le hle
  have hfind := find_append (p := s.take pos) (b := b) ha
  rw [← hsplit, List.take_append_drop, hpos, h] at hfind
  exact Option.some.inj hfind

end Cxx
