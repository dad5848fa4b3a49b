import MobaDisplay.Lib.CxxLine

/-!
# Reading into a stream buffer

A read up to a delimiter appends to a buffer what the socket gives, until the delimiter
is in the buffer. What comes in one piece with the delimiter is in the buffer as well,
so the read may complete with more than it asked for; how much more is up to the
socket. A read of an exact number of bytes takes no more than these.

For the blank line that ends a header the position is known: it is the first line that
is empty but for its carriage return (`indexOf_blankLine`).
-/

namespace Streambuf

open Cxx

/-- Where a text occurs for the first time. -/
def indexOf (t : Bytes) : Bytes → Option Nat
  | [] => if t = [] then some 0 else none
  | b :: s => if t.isPrefixOf (b :: s) then some 0 else (indexOf t s).map (· + 1)

/-- A read under way. -/
inductive Wait where
  /-- `async_read_until` into a buffer of limited size, which holds some bytes already. -/
  | readUntil (buffer delim : Bytes) (maxSize : Nat)
  /-- `async_read` with `transfer_exactly`. -/
  | readExactly (n : Nat)

/-- Whether a read may complete with these bytes. -/
def Wait.accepts : Wait → Bytes → Bool
  | .readUntil buffer delim maxSize, bytes =>
      if (indexOf delim buffer).isSome then bytes == []
      else (indexOf delim (buffer ++ bytes)).isSome
        && decide ((buffer ++ bytes).length ≤ maxSize)
  | .readExactly n, bytes => bytes.length == n

/-! ## The first occurrence -/

theorem indexOf_split {t s : Bytes} {i : Nat} (h : indexOf t s = some i) :
    ∃ a b, s = a ++ (t ++ b) ∧ a.length = i := by
  induction s generalizing i with
  | nil =>
      obtain ⟨rfl, hi⟩ := Option.ite_none_right_eq_some.mp h
      exact ⟨[], [], rfl, Option.some.inj hi⟩
  | cons c s ih =>
      unfold indexOf at h
      split at h
      · rename_i hpre
        obtain ⟨b, hb⟩ := List.isPrefixOf_iff_prefix.mp hpre
        exact ⟨[], b, hb.symm, Option.some.inj h⟩
      · obtain ⟨j, hj, rfl⟩ := Option.map_eq_some_iff.mp h
        obtain ⟨a, b, rfl, rfl⟩ := ih hj
        exact ⟨c :: a, b, rfl, rfl⟩

/-- Where a text occurs, it has occurred for the first time. -/
theorem indexOf_le (a t b : Bytes) : ∃ i ≤ a.length, indexOf t (a ++ (t ++ b)) = some i := by
  induction a with
  | nil =>
      refine ⟨0, Nat.le_refl _, ?_⟩
      rw [List.nil_append]
      cases htb : t ++ b with
      | nil =>
          have ht : t = [] := (List.append_eq_nil_iff.mp htb).1
          rw [indexOf, if_pos ht]
      | cons c s =>
          have hpre : t.isPrefixOf (c :: s) = true :=
            List.isPrefixOf_iff_prefix.mpr ⟨b, htb⟩
          rw [indexOf, if_pos hpre]
  | cons c a ih =>
      obtain ⟨i, hi, heq⟩ := ih
      rw [List.cons_append, indexOf]
      split
      · exact ⟨0, Nat.zero_le _, rfl⟩
      · exact ⟨i + 1, by simpa using hi, by rw [heq]; rfl⟩

/-- What comes later does not move the first occurrence. -/
theorem indexOf_append {t s : Bytes} {i : Nat} (h : indexOf t s = some i) (more : Bytes) :
    indexOf t (s ++ more) = some i := by
  induction s generalizing i with
  | nil =>
      obtain ⟨rfl, hi⟩ := Option.ite_none_right_eq_some.mp h
      cases more with
      | nil => exact h
      | cons c more => simpa [indexOf] using hi
  | cons c s ih =>
      unfold indexOf at h
      rw [List.cons_append, indexOf]
      split at h
      · rename_i hpre
        have hlonger : t <+: c :: (s ++ more) :=
          (List.isPrefixOf_iff_prefix.mp hpre).trans (List.prefix_append (c :: s) more)
        rw [if_pos (List.isPrefixOf_iff_prefix.mpr hlonger)]
        exact h
      · rename_i hnot
        obtain ⟨j, hj, rfl⟩ := Option.map_eq_some_iff.mp h
        have hshort : ¬ t.isPrefixOf (c :: (s ++ more)) = true := by
          intro hpre
          obtain ⟨a, b, hs, -⟩ := indexOf_split hj
          have hlen : t.length ≤ (c :: s).length := by
            simp only [hs, List.length_cons, List.length_append]
            omega
          exact hnot (List.isPrefixOf_iff_prefix.mpr (List.prefix_of_prefix_length_le
            (List.isPrefixOf_iff_prefix.mp hpre) (List.prefix_append (c :: s) more) hlen))
        rw [if_neg hshort, ih hj]
        rfl

/-- A beginning with the delimiter in it has it where the whole has it. -/
theorem indexOf_beginning {t whole p rest : Bytes} {i : Nat} (hwhole : indexOf t whole = some i)
    (hsplit : p ++ rest = whole) (hfound : (indexOf t p).isSome = true) :
    indexOf t p = some i ∧ i + t.length ≤ p.length := by
  obtain ⟨j, hj⟩ := Option.isSome_iff_exists.mp hfound
  have hall := indexOf_append hj rest
  rw [hsplit, hwhole] at hall
  obtain rfl := Option.some.inj hall
  obtain ⟨a, b, hp, ha⟩ := indexOf_split hj
  refine ⟨hj, ?_⟩
  simp only [hp, List.length_append]
  omega

/-- When a read up to a delimiter completes, the delimiter is in the buffer. -/
theorem Wait.found_of_accepts {buffer delim p : Bytes} {maxSize : Nat}
    (h : (Wait.readUntil buffer delim maxSize).accepts p = true) :
    (indexOf delim (buffer ++ p)).isSome = true := by
  simp only [Wait.accepts] at h
  split at h
  · rename_i hfound
    have hp : p = [] := by simpa using h
    rw [hp, List.append_nil]
    exact hfound
  · exact (Bool.and_eq_true_iff.mp h).1

theorem Wait.length_of_accepts {n : Nat} {p : Bytes} (h : (Wait.readExactly n).accepts p = true) :
    p.length = n := by
  simpa [Wait.accepts] using h

/-- With everything there, a read up to a delimiter can complete, if the buffer has room. -/
theorem Wait.accepts_of_found {buffer delim whole rest : Bytes} {maxSize i : Nat}
    (hsplit : buffer ++ rest = whole) (hfound : indexOf delim whole = some i)
    (hroom : i + delim.length ≤ maxSize) :
    ∃ n ≤ rest.length, (Wait.readUntil buffer delim maxSize).accepts (rest.take n) = true := by
  simp only [Wait.accepts]
  by_cases hbuffer : (indexOf delim buffer).isSome = true
  · exact ⟨0, Nat.zero_le _, by rw [if_pos hbuffer, List.take_zero]; rfl⟩
  · obtain ⟨a, b, heq, ha⟩ := indexOf_split hfound
    have hlen : buffer.length + rest.length = i + delim.length + b.length := by
      rw [← List.length_append, hsplit, heq]
      simp only [List.length_append]
      omega
    -- the buffer ends in front of the end of the delimiter
    have hshort : buffer.length < i + delim.length := by
      by_contra hle
      have hpre : a ++ delim <+: buffer := List.prefix_of_prefix_length_le
        ⟨b, by rw [List.append_assoc, ← heq]⟩ ⟨rest, hsplit⟩
        (by rw [List.length_append]; omega)
      obtain ⟨c, hc⟩ := hpre
      obtain ⟨j, -, hj⟩ := indexOf_le a delim c
      rw [← List.append_assoc, hc] at hj
      exact hbuffer (by rw [hj]; rfl)
    refine ⟨i + delim.length - buffer.length, by omega, ?_⟩
    have htake : buffer ++ rest.take (i + delim.length - buffer.length) = a ++ (delim ++ []) := by
      have hcut : (buffer ++ rest).take (i + delim.length) = (a ++ (delim ++ b)).take
          (i + delim.length) := by rw [hsplit, heq]
      rw [List.take_append, List.take_of_length_le (by omega), ← List.append_assoc,
        List.take_left' (by rw [List.length_append]; omega)] at hcut
      rw [hcut, List.append_nil]
    obtain ⟨j, -, hj⟩ := indexOf_le a delim []
    rw [if_neg hbuffer, htake, hj]
    simp only [List.append_nil, List.length_append, Option.isSome_some, Bool.true_and,
      decide_eq_true_eq]
    omega

/-! ## The blank line that ends a header -/

def crlf : Bytes := [carriageReturn, lineFeed]

/-- Lines with their line ends. -/
def unlines (lines : List Bytes) : Bytes := lines.flatMap fun line => line ++ crlf

/-- The line end of a line is its first one. -/
theorem indexOf_crlf {line : Bytes} (h : lineFeed ∉ line) (rest : Bytes) :
    indexOf crlf (line ++ (crlf ++ rest)) = some line.length := by
  obtain ⟨i, hi, hfirst⟩ := indexOf_le line crlf rest
  obtain ⟨a, b, heq, rfl⟩ := indexOf_split hfirst
  have hpre : a <+: line :=
    List.prefix_of_prefix_length_le ⟨crlf ++ b, heq.symm⟩ (List.prefix_append _ _) hi
  have ha : lineFeed ∉ a := fun hmem => h (hpre.subset hmem)
  have hcr : ∀ c : Bytes, lineFeed ∉ c → lineFeed ∉ c ++ [carriageReturn] := by
    intro c hc
    simp only [List.mem_append, List.mem_singleton, not_or]
    exact ⟨hc, by decide⟩
  have hline : (line ++ [carriageReturn]) ++ lineFeed :: rest
      = (a ++ [carriageReturn]) ++ lineFeed :: b := by
    simpa [crlf] using heq
  obtain ⟨hsame, -⟩ := split_unique (hcr line h) (hcr a ha) hline
  rw [hfirst, List.append_cancel_right hsame]

/-- A line that does not end the header. -/
structure HeaderLine (line : Bytes) : Prop where
  lineFeed : lineFeed ∉ line
  nonempty : line ≠ []

theorem unlines_cons (line : Bytes) (lines : List Bytes) (rest : Bytes) :
    unlines (line :: lines) ++ rest
      = (line ++ [carriageReturn]) ++ lineFeed :: (unlines lines ++ rest) := by
  simp [unlines, crlf]

theorem lineFeed_notMem_append {line : Bytes} (h : lineFeed ∉ line) :
    lineFeed ∉ line ++ [carriageReturn] := by
  simp only [List.mem_append, List.mem_singleton, not_or]
  exact ⟨h, by decide⟩

/-- A blank line stands nowhere in front of the lines that are not blank. -/
theorem blankLine_after {lines : List Bytes} (h : ∀ line ∈ lines, HeaderLine line)
    {a b body : Bytes} (heq : a ++ (crlf ++ (crlf ++ b)) = unlines lines ++ (crlf ++ body)) :
    (unlines lines).length ≤ a.length + 2 := by
  induction lines generalizing a with
  | nil => simp [unlines]
  | cons line lines ih =>
      have hline := lineFeed_notMem_append (h line (by simp)).lineFeed
      rw [unlines_cons] at heq
      by_cases hmem : lineFeed ∈ a
      · -- the first line is in front of the blank one
        obtain ⟨a₁, a₂, rfl, ha₁⟩ := split_at_first hmem
        rw [List.append_assoc, List.cons_append] at heq
        obtain ⟨rfl, htail⟩ := split_unique ha₁ hline heq
        have hle := ih (fun l hl => h l (List.mem_cons_of_mem _ hl)) htail
        have hlen : (unlines (line :: lines)).length
            = line.length + 2 + (unlines lines).length := by
          simp [unlines, crlf]
          omega
        rw [hlen, List.length_append, List.length_cons, List.length_append, List.length_singleton]
        omega
      · have hfirst : a ++ (crlf ++ (crlf ++ b))
            = (a ++ [carriageReturn]) ++ lineFeed :: (crlf ++ b) := by
          simp [crlf]
        rw [hfirst] at heq
        obtain ⟨hsame, htail⟩ := split_unique (lineFeed_notMem_append hmem) hline heq
        obtain rfl := List.append_cancel_right hsame
        cases lines with
        | nil => simp [unlines, crlf]
        | cons next lines =>
            -- the next line would be the blank one
            have hnext := h next (by simp)
            have hcr : crlf ++ b = ([] ++ [carriageReturn]) ++ lineFeed :: b := rfl
            rw [hcr, unlines_cons] at htail
            obtain ⟨hblank, -⟩ := split_unique (by decide)
              (lineFeed_notMem_append hnext.lineFeed) htail
            exact absurd (List.append_cancel_right hblank).symm hnext.nonempty

/-- **Where a header ends**: at the blank line, and not before. -/
theorem indexOf_blankLine {lines : List Bytes} (hne : lines ≠ [])
    (h : ∀ line ∈ lines, HeaderLine line) (body : Bytes) :
    indexOf (crlf ++ crlf) (unlines lines ++ (crlf ++ body))
      = some ((unlines lines).length - 2) := by
  obtain ⟨front, last, rfl⟩ := (List.eq_nil_or_concat lines).resolve_left hne
  have hsplit : unlines (front.concat last) ++ (crlf ++ body)
      = (unlines front ++ last) ++ ((crlf ++ crlf) ++ body) := by
    simp [unlines]
  have hlen : (unlines (front.concat last)).length = (unlines front ++ last).length + 2 := by
    simp [unlines, crlf]
    omega
  obtain ⟨i, hi, hfirst⟩ := indexOf_le (unlines front ++ last) (crlf ++ crlf) body
  rw [← hsplit] at hfirst
  obtain ⟨a, b, heq, rfl⟩ := indexOf_split hfirst
  rw [List.append_assoc] at heq
  have hafter := blankLine_after h heq.symm
  rw [hfirst]
  congr 1
  omega

end Streambuf
