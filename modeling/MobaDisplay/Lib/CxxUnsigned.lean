import MobaDisplay.Lib.CxxString

/-!
# `std::stoull`, and `std::stoul` and `std::strtol` to the base 16

They skip white space, take a sign, read as many digits as there are and leave the
rest; to the base 16 the digits may have `0x` in front. A negative number goes round,
and a number of more than 64 bits throws. `none` stands for what is thrown.
-/

namespace Cxx

/-- The value of the digits behind a sign. -/
def unsignedValue (neg : Bool) (v : Nat) : Option Nat :=
  if 2 ^ 64 ≤ v then none else some (if neg then (2 ^ 64 - v) % 2 ^ 64 else v)

/-- `stoull(s)` -/
def stoull (s : Bytes) : Option Nat :=
  let signed := takeSign (s.dropWhile isspace)
  let digits := signed.2.takeWhile isdigit
  if digits = [] then none else unsignedValue signed.1 (digitsValue digits)

/-- The value of a hexadecimal digit. -/
def hexValue (b : UInt8) : Option Nat :=
  if isdigit b then some (b.toNat - 48)
  else if 97 ≤ b && b ≤ 102 then some (b.toNat - 87)
  else if 65 ≤ b && b ≤ 70 then some (b.toNat - 55)
  else none

def isxdigit (b : UInt8) : Bool := (hexValue b).isSome

def hexDigitsValue (ds : Bytes) : Nat := ds.foldl (fun v d => 16 * v + (hexValue d).getD 0) 0

/-- `0x` or `0X`, if a digit stands behind it. -/
def dropHexPrefix : Bytes → Bytes
  | 48 :: x :: d :: s => if (x = 120 ∨ x = 88) ∧ isxdigit d then d :: s else 48 :: x :: d :: s
  | s => s

/-- `stoul(s, 0, 16)` -/
def stoul16 (s : Bytes) : Option Nat :=
  let signed := takeSign (s.dropWhile isspace)
  let digits := (dropHexPrefix signed.2).takeWhile isxdigit
  if digits = [] then none else unsignedValue signed.1 (hexDigitsValue digits)

/--
`strtol(s, nullptr, 16)`, a number of 64 bits: what is too large is the largest, and
where there are no digits it is zero.
-/
def strtol16 (s : Bytes) : Int :=
  let signed := takeSign (s.dropWhile isspace)
  let value : Int := hexDigitsValue ((dropHexPrefix signed.2).takeWhile isxdigit)
  max (-2 ^ 63) (min (2 ^ 63 - 1) (if signed.1 then -value else value))

theorem stoull_natDigits {n : Nat} (h : n < 2 ^ 64) : stoull (natDigits n) = some n := by
  have hd := natDigits_isDigits n
  have hdrop : (natDigits n).dropWhile isspace = natDigits n := by
    have hhead := sign_head (r := []) Sign.none hd
    rw [List.nil_append, List.append_nil] at hhead
    cases hl : natDigits n with
    | nil => rfl
    | cons b l => rw [List.dropWhile_cons, hhead b (by simp [hl])]; rfl
  have hsign : takeSign (natDigits n) = (false, natDigits n) := by
    simpa using @takeSign_sign false [] (natDigits n) [] Sign.none hd
  have htake : (natDigits n).takeWhile isdigit = natDigits n :=
    List.takeWhile_eq_self_iff.mpr hd.2
  simp only [stoull, hdrop, hsign, htake, if_neg hd.1, digitsValue_natDigits, unsignedValue]
  rw [if_neg (by omega)]
  rfl

theorem hexValue_lt {b : UInt8} {v : Nat} (h : hexValue b = some v) : v < 16 := by
  simp only [hexValue, isdigit, Bool.and_eq_true, decide_eq_true_eq,
    UInt8.le_iff_toNat_le, UInt8.reduceToNat] at h
  split at h
  · have := Option.some.inj h
    omega
  · split at h
    · have := Option.some.inj h
      omega
    · split at h
      · have := Option.some.inj h
        omega
      · cases h

theorem hexDigitsValue_lt (ds : Bytes) : hexDigitsValue ds < 16 ^ ds.length := by
  induction ds using List.reverseRecOn with
  | nil => exact Nat.one_pos
  | append_singleton ds d ih =>
      have hdigit : (hexValue d).getD 0 < 16 := by
        cases hd : hexValue d with
        | none => decide
        | some v => exact hexValue_lt hd
      have hstep : hexDigitsValue (ds ++ [d]) = 16 * hexDigitsValue ds + (hexValue d).getD 0 := by
        simp [hexDigitsValue, List.foldl_append]
      rw [hstep, List.length_append, List.length_singleton, Nat.pow_succ]
      omega

theorem isxdigit_facts {b : UInt8} (h : isxdigit b = true) :
    isspace b = false ∧ b ≠ 43 ∧ b ≠ 45 ∧ b ≠ 120 ∧ b ≠ 88 := by
  have hbytes : ∀ n < 256, isxdigit (UInt8.ofNat n) = true →
      isspace (UInt8.ofNat n) = false ∧ UInt8.ofNat n ≠ 43 ∧ UInt8.ofNat n ≠ 45
        ∧ UInt8.ofNat n ≠ 120 ∧ UInt8.ofNat n ≠ 88 := by
    decide +kernel
  have hb := hbytes b.toNat b.toNat_lt
  rw [UInt8.ofNat_toNat] at hb
  exact hb h

/-- Hexadecimal digits, and what is no digit behind them. -/
theorem stoul16_digits {ds rest : Bytes} (hne : ds ≠ []) (hall : ∀ b ∈ ds, isxdigit b = true)
    (hshort : ds.length ≤ 16) (hrest : ∀ b ∈ rest.head?, isxdigit b = false ∧ b ≠ 120 ∧ b ≠ 88) :
    stoul16 (ds ++ rest) = some (hexDigitsValue ds) := by
  obtain ⟨d, tail, rfl⟩ := List.exists_cons_of_ne_nil hne
  obtain ⟨hspace, hplus, hminus, -, -⟩ := isxdigit_facts (hall d (by simp))
  have hdrop : (d :: tail ++ rest).dropWhile isspace = d :: tail ++ rest := by
    rw [List.cons_append, List.dropWhile_cons, hspace]
    rfl
  have hsign : takeSign (d :: tail ++ rest) = (false, d :: tail ++ rest) := by
    rw [List.cons_append]
    unfold takeSign
    split
    · rename_i heq
      exact absurd (List.cons.inj heq).1 hminus
    · rename_i heq
      exact absurd (List.cons.inj heq).1 hplus
    · rfl
  have hdigits : dropHexPrefix (d :: tail ++ rest) = d :: tail ++ rest := by
    unfold dropHexPrefix
    split
    · rename_i x e s heq
      -- the second byte is a digit, or the first one behind the digits
      have hx : ¬ (x = 120 ∨ x = 88) := by
        cases tail with
        | nil =>
            obtain rfl : rest = x :: e :: s := (List.cons.inj heq).2
            have hno := hrest x rfl
            rintro (h | h)
            · exact hno.2.1 h
            · exact hno.2.2 h
        | cons c tail =>
            have hc : c = x := (List.cons.inj (List.cons.inj heq).2).1
            have hno := isxdigit_facts (hall c (by simp))
            rintro (h | h)
            · exact hno.2.2.2.1 (hc.trans h)
            · exact hno.2.2.2.2 (hc.trans h)
      rw [if_neg (fun h => hx h.1), heq]
    · rfl
  have htake : (d :: tail ++ rest).takeWhile isxdigit = d :: tail := by
    rw [List.takeWhile_append_of_pos hall, takeWhile_head (fun b hb => (hrest b hb).1),
      List.append_nil]
  have hlt : hexDigitsValue (d :: tail) < 2 ^ 64 :=
    Nat.lt_of_lt_of_le (hexDigitsValue_lt _) (Nat.pow_le_pow_right (n := 16) (by decide) hshort)
  simp only [stoul16, hdrop, hsign, hdigits, htake, if_neg hne, unsignedValue]
  rw [if_neg (by omega)]
  rfl

end Cxx
