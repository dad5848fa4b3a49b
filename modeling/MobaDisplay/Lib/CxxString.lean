import Mathlib.Data.List.TakeWhile
import Mathlib.Data.Nat.Digits.Lemmas

/-!
# The part of `std::string` and its conversions a parser is made of

`find` and `substr` keep their positions: a search answers with an index (`none`
is `npos`) and a substring that begins past the end throws. `stoi` is the one of
the C locale: it skips white space, takes a sign, reads as many digits as there
are and does not look at the rest.

`stoi_eq_ok_iff` says which texts it accepts, as a grammar; `Numeral` is the
narrower grammar of a decimal number and nothing else.
-/

namespace Cxx

/-- The bytes of a `std::string`. -/
abbrev Bytes := List UInt8

/-- The bytes of a text, as they are in a source file and on a websocket. -/
def utf8 (s : String) : Bytes := s.toByteArray.data.toList

theorem utf8_append (s t : String) : utf8 (s ++ t) = utf8 s ++ utf8 t := by
  simp [utf8, String.toByteArray_append]

/-- The classes of `std::exception` a handler sees, each with its `what()`. -/
inductive Exception where
  | outOfRange (what : Bytes)
  | invalidArgument (what : Bytes)
  | filesystemError (what : Bytes)
  | runtimeError (what : Bytes)
  deriving DecidableEq

def Exception.what : Exception → Bytes
  | outOfRange w => w
  | invalidArgument w => w
  | filesystemError w => w
  | runtimeError w => w

/-! ## Searching and cutting -/

/-- `s.find(c, pos)`; `none` is `npos`. -/
def find (s : Bytes) (c : UInt8) (pos : Nat) : Option Nat :=
  ((s.drop pos).findIdx? (· == c)).map (pos + ·)

/-- `s.substr(pos)`. -/
def substrFrom (s : Bytes) (pos : Nat) : Except Exception Bytes :=
  if s.length < pos then
    .error (.outOfRange (utf8 "basic_string::substr"))
  else
    .ok (s.drop pos)

/-- `s.substr(pos, n)`. -/
def substr (s : Bytes) (pos n : Nat) : Except Exception Bytes :=
  if s.length < pos then
    .error (.outOfRange (utf8 "basic_string::substr"))
  else
    .ok ((s.drop pos).take n)

theorem find_eq_none_iff {s : Bytes} {c : UInt8} {pos : Nat} :
    find s c pos = none ↔ c ∉ s.drop pos := by
  simp only [find, Option.map_eq_none_iff, List.findIdx?_eq_none_iff, beq_eq_false_iff_ne]
  refine ⟨?_, ?_⟩
  · intro h hc
    exact h c hc rfl
  · intro h x hx he
    subst he
    exact h hx

/-- The first `c` behind a text without one. -/
theorem find_append {p a b : Bytes} {c : UInt8} (ha : c ∉ a) :
    find (p ++ (a ++ c :: b)) c p.length = some (p.length + a.length) := by
  have hnone : a.findIdx? (· == c) = none := by
    rw [List.findIdx?_eq_none_iff]
    intro x hx
    rw [beq_eq_false_iff_ne]
    intro he
    subst he
    exact ha hx
  have hfirst : (a ++ c :: b).findIdx? (· == c) = some a.length := by
    rw [List.findIdx?_append, hnone, List.findIdx?_cons]
    simp
  unfold find
  rw [List.drop_left, hfirst]
  rfl

/-- A list that holds `c` splits at the first one. -/
theorem split_at_first {s : Bytes} {c : UInt8} (h : c ∈ s) :
    ∃ a b, s = a ++ c :: b ∧ c ∉ a := by
  induction s with
  | nil => exact absurd h (by simp)
  | cons x s ih =>
      by_cases hx : x = c
      · exact ⟨[], s, by rw [hx]; rfl, by simp⟩
      · have hs : c ∈ s := (List.mem_cons.mp h).resolve_left (Ne.symm hx)
        obtain ⟨a, b, heq, ha⟩ := ih hs
        refine ⟨x :: a, b, by rw [heq]; rfl, ?_⟩
        rw [List.mem_cons, not_or]
        exact ⟨Ne.symm hx, ha⟩

/-- Only one split puts the first `c` at the cut. -/
theorem split_unique {a a' b b' : Bytes} {c : UInt8} (ha : c ∉ a) (ha' : c ∉ a')
    (h : a ++ c :: b = a' ++ c :: b') : a = a' ∧ b = b' := by
  have hl : a.length = a'.length := by
    have h1 := find_append (p := []) (b := b) ha
    have h2 := find_append (p := []) (b := b') ha'
    rw [List.nil_append, h] at h1
    rw [List.nil_append, h1] at h2
    simpa using h2
  obtain ⟨h1, h2⟩ := List.append_inj h hl
  exact ⟨h1, (List.cons.inj h2).2⟩

/-! ## Numbers -/

/-- `isspace` in the C locale. -/
def isspace (b : UInt8) : Bool := b == 32 || (9 ≤ b && b ≤ 13)

/-- `isdigit`. -/
def isdigit (b : UInt8) : Bool := 48 ≤ b && b ≤ 57

/-- The number a run of decimal digits stands for. -/
def digitsValue (ds : Bytes) : Nat := ds.foldl (fun v d => 10 * v + (d.toNat - 48)) 0

/-- The same with a sign in front. -/
def signedValue (neg : Bool) (ds : Bytes) : Int :=
  if neg then -(digitsValue ds : Int) else digitsValue ds

/-- A leading `-` or `+`, and what is behind it. -/
def takeSign : Bytes → Bool × Bytes
  | 45 :: s => (true, s)
  | 43 :: s => (false, s)
  | s => (false, s)

/--
`strtol(s, &end, 10)`; `none` where it converts nothing. A value beyond `long`
makes it answer with `ERANGE`, which `stoi` turns into the same exception as a
value beyond `int`, so the value itself is enough here.
-/
def strtol (s : Bytes) : Option Int :=
  let signed := takeSign (s.dropWhile isspace)
  let digits := signed.2.takeWhile isdigit
  if digits = [] then none else some (signedValue signed.1 digits)

def intMin : Int := -2147483648
def intMax : Int := 2147483647

/-- The values of a 32-bit `int`. -/
def IsInt (v : Int) : Prop := intMin ≤ v ∧ v ≤ intMax

instance (v : Int) : Decidable (IsInt v) := inferInstanceAs (Decidable (_ ∧ _))

/-- `std::stoi`. -/
def stoi (s : Bytes) : Except Exception Int :=
  match strtol s with
  | none => .error (.invalidArgument (utf8 "stoi"))
  | some v => if IsInt v then .ok v else .error (.outOfRange (utf8 "stoi"))

/-! ## What `stoi` accepts -/

/-- Digits, and at least one. -/
def IsDigits (ds : Bytes) : Prop := ds ≠ [] ∧ ∀ b ∈ ds, isdigit b = true

/-- The spellings of a sign: none, `+` and `-`. -/
inductive Sign : Bool → Bytes → Prop where
  | none : Sign false []
  | plus : Sign false [43]
  | minus : Sign true [45]

/-- White space, an optional sign, digits, and then anything that is not a digit. -/
def StoiText (s : Bytes) (v : Int) : Prop :=
  ∃ (ws sign ds rest : Bytes) (neg : Bool),
    s = ws ++ (sign ++ (ds ++ rest)) ∧ (∀ b ∈ ws, isspace b = true) ∧ Sign neg sign
      ∧ IsDigits ds ∧ (∀ b ∈ rest.head?, isdigit b = false)
      ∧ v = signedValue neg ds ∧ IsInt v

/-- An optional `-`, digits, and nothing else. -/
def Numeral (s : Bytes) (v : Int) : Prop :=
  ∃ (ds : Bytes) (neg : Bool),
    s = (if neg then [45] else []) ++ ds ∧ IsDigits ds ∧ v = signedValue neg ds ∧ IsInt v

theorem isspace_of_isdigit {b : UInt8} (h : isdigit b = true) : isspace b = false := by
  simp only [isdigit, isspace, Bool.and_eq_true, decide_eq_true_eq, Bool.or_eq_false_iff,
    Bool.and_eq_false_iff, beq_eq_false_iff_ne, decide_eq_false_iff_not, ne_eq,
    UInt8.le_iff_toNat_le, ← UInt8.toNat_inj] at *
  simp only [UInt8.reduceToNat] at *
  omega

theorem takeWhile_head {p : UInt8 → Bool} {rest : Bytes}
    (h : ∀ b ∈ rest.head?, p b = false) : rest.takeWhile p = [] := by
  cases rest with
  | nil => rfl
  | cons b rest => rw [List.takeWhile_cons, h b (by simp)]; rfl

theorem head_dropWhile {p : UInt8 → Bool} (s : Bytes) :
    ∀ b ∈ (s.dropWhile p).head?, p b = false := by
  intro b hb
  have hn := List.head?_dropWhile_not p s
  rw [Option.mem_def] at hb
  rw [hb] at hn
  simpa using hn

theorem takeSign_spec (s : Bytes) :
    ∃ sign, Sign (takeSign s).1 sign ∧ s = sign ++ (takeSign s).2 := by
  unfold takeSign
  split
  · exact ⟨_, Sign.minus, rfl⟩
  · exact ⟨_, Sign.plus, rfl⟩
  · exact ⟨_, Sign.none, rfl⟩

theorem takeSign_sign {neg : Bool} {sign ds rest : Bytes} (hs : Sign neg sign)
    (hd : IsDigits ds) : takeSign (sign ++ (ds ++ rest)) = (neg, ds ++ rest) := by
  cases hs with
  | plus => rfl
  | minus => rfl
  | none =>
      obtain ⟨hne, hall⟩ := hd
      obtain ⟨d, ds, rfl⟩ := List.exists_cons_of_ne_nil hne
      have hdig : isdigit d = true := hall d (by simp)
      simp only [List.nil_append, List.cons_append]
      -- neither sign is a digit
      unfold takeSign
      split
      · rename_i he
        rw [(List.cons.inj he).1] at hdig
        exact absurd hdig (by decide)
      · rename_i he
        rw [(List.cons.inj he).1] at hdig
        exact absurd hdig (by decide)
      · rfl

theorem sign_head {neg : Bool} {sign ds r : Bytes} (hs : Sign neg sign) (hd : IsDigits ds) :
    ∀ b ∈ (sign ++ (ds ++ r)).head?, isspace b = false := by
  intro b hb
  cases hs with
  | plus =>
      simp only [List.cons_append, List.head?_cons, Option.mem_some_iff] at hb
      subst hb
      rfl
  | minus =>
      simp only [List.cons_append, List.head?_cons, Option.mem_some_iff] at hb
      subst hb
      rfl
  | none =>
      obtain ⟨hne, hall⟩ := hd
      obtain ⟨d, ds, rfl⟩ := List.exists_cons_of_ne_nil hne
      have hdigit : isdigit d = true := hall d (by simp)
      simp only [List.nil_append, List.cons_append, List.head?_cons, Option.mem_some_iff] at hb
      subst hb
      exact isspace_of_isdigit hdigit

theorem strtol_eq_some {ws sign ds rest : Bytes} {neg : Bool}
    (hws : ∀ b ∈ ws, isspace b = true) (hs : Sign neg sign) (hd : IsDigits ds)
    (hrest : ∀ b ∈ rest.head?, isdigit b = false) :
    strtol (ws ++ (sign ++ (ds ++ rest))) = some (signedValue neg ds) := by
  have hdrop : (ws ++ (sign ++ (ds ++ rest))).dropWhile isspace = sign ++ (ds ++ rest) := by
    rw [List.dropWhile_append_of_pos hws]
    have hhead := sign_head (r := rest) hs hd
    cases hl : sign ++ (ds ++ rest) with
    | nil => rfl
    | cons b l => rw [List.dropWhile_cons, hhead b (by simp [hl])]; rfl
  have htake : (ds ++ rest).takeWhile isdigit = ds := by
    rw [List.takeWhile_append_of_pos hd.2, takeWhile_head hrest, List.append_nil]
  simp only [strtol, hdrop, takeSign_sign hs hd, htake, if_neg hd.1]

theorem strtol_split {s : Bytes} {v : Int} (h : strtol s = some v) :
    ∃ (ws sign ds rest : Bytes) (neg : Bool),
      s = ws ++ (sign ++ (ds ++ rest)) ∧ (∀ b ∈ ws, isspace b = true) ∧ Sign neg sign
        ∧ IsDigits ds ∧ (∀ b ∈ rest.head?, isdigit b = false) ∧ v = signedValue neg ds := by
  obtain ⟨sign, hs, hsplit⟩ := takeSign_spec (s.dropWhile isspace)
  simp only [strtol] at h
  split at h
  · exact absurd h (by simp)
  · rename_i hne
    refine ⟨s.takeWhile isspace, sign, _, _, _, ?_, ?_, hs, ⟨hne, ?_⟩,
      head_dropWhile (takeSign (s.dropWhile isspace)).2, (Option.some.inj h).symm⟩
    · rw [List.takeWhile_append_dropWhile, ← hsplit, List.takeWhile_append_dropWhile]
    · intro b hb
      exact List.mem_takeWhile_imp hb
    · intro b hb
      exact List.mem_takeWhile_imp hb

/-- **What `stoi` accepts**, and the value it answers with. -/
theorem stoi_eq_ok_iff {s : Bytes} {v : Int} : stoi s = .ok v ↔ StoiText s v := by
  refine ⟨?_, ?_⟩
  · intro h
    unfold stoi at h
    cases hv : strtol s with
    | none => rw [hv] at h; exact absurd h (by simp)
    | some u =>
        rw [hv] at h
        dsimp only at h
        split at h
        · rename_i hint
          obtain rfl := Except.ok.inj h
          obtain ⟨ws, sign, ds, rest, neg, h1, h2, h3, h4, h5, h6⟩ := strtol_split hv
          exact ⟨ws, sign, ds, rest, neg, h1, h2, h3, h4, h5, h6, hint⟩
        · exact absurd h (by simp)
  · rintro ⟨ws, sign, ds, rest, neg, rfl, h2, h3, h4, h5, rfl, hint⟩
    unfold stoi
    rw [strtol_eq_some h2 h3 h4 h5]
    exact if_pos hint

example : stoi (utf8 " +7abc") = .ok 7 := by decide +kernel

/-- A decimal number on its own is one of the accepted texts. -/
theorem Numeral.stoiText {s : Bytes} {v : Int} (h : Numeral s v) : StoiText s v := by
  obtain ⟨ds, neg, rfl, hd, hv, hint⟩ := h
  refine ⟨[], if neg then [45] else [], ds, [], neg, by simp, by simp, ?_, hd, by simp, hv, hint⟩
  cases neg with
  | false => exact Sign.none
  | true => exact Sign.minus

/-! ## Writing a number -/

/-- The decimal digits of a natural number. -/
def natDigits (n : Nat) : Bytes :=
  if n = 0 then [48] else (Nat.digits 10 n).reverse.map (fun d => UInt8.ofNat (48 + d))

/-- A number as `std::to_string` and JavaScript write it. -/
def decimal : Int → Bytes
  | .ofNat n => natDigits n
  | .negSucc n => 45 :: natDigits (n + 1)

theorem digit_toNat {d : Nat} (h : d < 10) : (UInt8.ofNat (48 + d)).toNat = 48 + d := by
  rw [UInt8.toNat_ofNat']
  omega

theorem isdigit_digit {d : Nat} (h : d < 10) : isdigit (UInt8.ofNat (48 + d)) = true := by
  simp only [isdigit, Bool.and_eq_true, decide_eq_true_eq, UInt8.le_iff_toNat_le, digit_toNat h]
  simp only [UInt8.reduceToNat]
  omega

theorem natDigits_isDigits (n : Nat) : IsDigits (natDigits n) := by
  unfold natDigits
  split
  · refine ⟨List.cons_ne_nil _ _, ?_⟩
    intro b hb
    rw [List.mem_singleton.mp hb]
    rfl
  · rename_i hn
    refine ⟨by simpa [Nat.digits_ne_nil_iff_ne_zero] using hn, ?_⟩
    intro b hb
    obtain ⟨d, hd, rfl⟩ := List.mem_map.mp hb
    exact isdigit_digit (Nat.digits_lt_base (by decide) (List.mem_reverse.mp hd))

theorem digitsValue_snoc (ds : Bytes) (d : UInt8) :
    digitsValue (ds ++ [d]) = 10 * digitsValue ds + (d.toNat - 48) := by
  simp [digitsValue, List.foldl_append]

theorem digitsValue_digits (l : List Nat) (h : ∀ d ∈ l, d < 10) :
    digitsValue (l.reverse.map (fun d => UInt8.ofNat (48 + d))) = Nat.ofDigits 10 l := by
  induction l with
  | nil => rfl
  | cons d l ih =>
      have hd : d < 10 := h d (by simp)
      have hl : ∀ x ∈ l, x < 10 := by
        intro x hx
        exact h x (List.mem_cons_of_mem _ hx)
      rw [List.reverse_cons, List.map_append, List.map_singleton, digitsValue_snoc, ih hl,
        digit_toNat hd, Nat.ofDigits_cons]
      omega

theorem digitsValue_natDigits (n : Nat) : digitsValue (natDigits n) = n := by
  unfold natDigits
  split
  · rename_i hn
    rw [hn]
    rfl
  · rw [digitsValue_digits _ (fun d hd => Nat.digits_lt_base (by decide) hd),
      Nat.ofDigits_digits]

/-- **Reading back what was written.** -/
theorem decimal_numeral {v : Int} (h : IsInt v) : Numeral (decimal v) v := by
  cases v with
  | ofNat n =>
      refine ⟨natDigits n, false, rfl, natDigits_isDigits n, ?_, h⟩
      simp [signedValue, digitsValue_natDigits]
  | negSucc n =>
      refine ⟨natDigits (n + 1), true, rfl, natDigits_isDigits (n + 1), ?_, h⟩
      simp [signedValue, digitsValue_natDigits, Int.negSucc_eq]

theorem stoi_decimal {v : Int} (h : IsInt v) : stoi (decimal v) = .ok v :=
  stoi_eq_ok_iff.mpr (decimal_numeral h).stoiText

/-- No byte of a number is a separator, as long as the separator is no digit and no minus. -/
theorem not_mem_decimal {c : UInt8} (v : Int) (hd : isdigit c = false) (hm : c ≠ 45) :
    c ∉ decimal v := by
  have hnat : ∀ n, c ∉ natDigits n := by
    intro n hc
    rw [(natDigits_isDigits n).2 c hc] at hd
    exact Bool.noConfusion hd
  cases v with
  | ofNat n => exact hnat n
  | negSucc n =>
      unfold decimal
      rw [List.mem_cons, not_or]
      exact ⟨hm, hnat (n + 1)⟩

end Cxx
