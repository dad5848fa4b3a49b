import MobaDisplay.Page.Frames

/-!
# Which texts become a command, and which command

The handler sends something exactly for the texts `a#b#c` in which `stoi` accepts
`a` and `b`. That is more than two decimal numbers: `stoi` skips white space,
takes a `+` and ignores what follows the digits. Within the narrower grammar, the
one every page speaks, a command arrives as it was meant. A text that ends with its
second separator is sent with no data at all, not with `null`.
-/

namespace MobaDisplay

open Cxx

/-- The texts the handler accepts, with the two numbers it reads. -/
def Accepted (t : Bytes) (g m : Int) : Prop :=
  ∃ a b c, t = command a b c ∧ hash ∉ a ∧ hash ∉ b ∧ StoiText a g ∧ StoiText b m

/-- The texts that consist of two decimal numbers and a rest. -/
def WellFormed (t : Bytes) (g m : Int) : Prop :=
  ∃ a b c, t = command a b c ∧ Numeral a g ∧ Numeral b m

theorem not_mem_numeral {s : Bytes} {v : Int} (h : Numeral s v) : hash ∉ s := by
  obtain ⟨ds, neg, rfl, ⟨_, hall⟩, _⟩ := h
  intro hmem
  rcases List.mem_append.mp hmem with hsign | hdigit
  · cases neg with
    | false => simp at hsign
    | true => exact absurd (List.mem_singleton.mp hsign) (by decide)
  · exact absurd (hall hash hdigit) (by decide)

/-- Two decimal numbers and a rest are among the accepted texts. -/
theorem WellFormed.accepted {t : Bytes} {g m : Int} (h : WellFormed t g m) : Accepted t g m := by
  obtain ⟨a, b, c, heq, ha, hb⟩ := h
  exact ⟨a, b, c, heq, not_mem_numeral ha, not_mem_numeral hb, ha.stoiText, hb.stoiText⟩

/-- The calls made on `a#b#c`: one if both numbers convert, none otherwise. -/
theorem calls_command (sendMsg : SendMsg) {a b c : Bytes} (ha : hash ∉ a) (hb : hash ∉ b) :
    (∃ g m, stoi a = .ok g ∧ stoi b = .ok m
        ∧ (onMessage sendMsg (command a b c)).calls = [⟨g, m, c⟩])
      ∨ ((∀ g m, ¬ (stoi a = .ok g ∧ stoi b = .ok m))
        ∧ (onMessage sendMsg (command a b c)).calls = []) := by
  rw [onMessage_command ha hb]
  cases hp : parsed a b c with
  | error e =>
      right
      refine ⟨?_, trySendMsg_error_calls sendMsg e⟩
      intro g m h
      have hok : parsed a b c = .ok ⟨g, m, c⟩ := parsed_eq_ok_iff.mpr ⟨h.1, h.2, rfl⟩
      rw [hp] at hok
      exact absurd hok (by simp)
  | ok call =>
      left
      obtain ⟨hg, hm, hdata⟩ := parsed_eq_ok_iff.mp hp
      obtain ⟨g, m, data⟩ := call
      subst hdata
      exact ⟨g, m, hg, hm, trySendMsg_ok_calls sendMsg _⟩

/-- The calls made on any text: one with the two numbers read, or none. -/
theorem calls_cases (sendMsg : SendMsg) (t : Bytes) :
    (∃ g m d, Accepted t g m ∧ (onMessage sendMsg t).calls = [⟨g, m, d⟩])
      ∨ ((∀ g m, ¬ Accepted t g m) ∧ (onMessage sendMsg t).calls = []) := by
  by_cases hcut : ∃ a b c, t = command a b c ∧ hash ∉ a ∧ hash ∉ b
  · obtain ⟨a, b, c, rfl, ha, hb⟩ := hcut
    rcases calls_command sendMsg (c := c) ha hb with ⟨g, m, hg, hm, hcalls⟩ | ⟨hno, hcalls⟩
    · left
      have hacc : Accepted (command a b c) g m :=
        ⟨a, b, c, rfl, ha, hb, stoi_eq_ok_iff.mp hg, stoi_eq_ok_iff.mp hm⟩
      exact ⟨g, m, c, hacc, hcalls⟩
    · right
      refine ⟨?_, hcalls⟩
      intro g m hacc
      obtain ⟨a', b', c', heq, ha', hb', hg, hm⟩ := hacc
      obtain ⟨rfl, rfl, rfl⟩ := command_inj ha ha' hb hb' heq
      exact hno g m ⟨stoi_eq_ok_iff.mpr hg, stoi_eq_ok_iff.mpr hm⟩
  · right
    have hcalls : (onMessage sendMsg t).calls = [] := by rw [onMessage_other hcut]
    refine ⟨?_, hcalls⟩
    intro g m hacc
    obtain ⟨a, b, c, heq, ha, hb, _⟩ := hacc
    exact hcut ⟨a, b, c, heq, ha, hb⟩

/-- A text is read in one way only. -/
theorem Accepted.unique {t : Bytes} {g g' m m' : Int} (h : Accepted t g m)
    (h' : Accepted t g' m') : g = g' ∧ m = m' := by
  obtain ⟨a, b, c, rfl, ha, hb, hg, hm⟩ := h
  obtain ⟨a', b', c', heq, ha', hb', hg', hm'⟩ := h'
  obtain ⟨rfl, rfl, rfl⟩ := command_inj ha ha' hb hb' heq
  have h1 := stoi_eq_ok_iff.mpr hg
  have h2 := stoi_eq_ok_iff.mpr hm
  rw [stoi_eq_ok_iff.mpr hg'] at h1
  rw [stoi_eq_ok_iff.mpr hm'] at h2
  exact ⟨(Except.ok.inj h1).symm, (Except.ok.inj h2).symm⟩

/-- The positions the handler hands to `substr` are inside the text, and its subtraction is safe. -/
theorem positions_inside {t : Bytes} {pos pos1 : Nat} (h : find t hash 0 = some pos)
    (h1 : find t hash (pos + 1) = some pos1) :
    pos + 1 ≤ pos1 ∧ pos1 + 1 ≤ t.length := by
  obtain ⟨a, b, c, rfl, _, _, rfl, rfl⟩ := command_of_find h h1
  simp only [command, List.length_append, List.length_cons]
  omega

/-- No exception leaves the handler, if `sendMsg` throws none that is foreign to it. -/
theorem onMessage_escaped {sendMsg : SendMsg} (hstd : sendMsg.ThrowsStd) (t : Bytes) :
    (onMessage sendMsg t).escaped = false := by
  unfold onMessage
  split
  · rfl
  · split
    · rfl
    · exact trySendMsg_escaped hstd _

/--
**The command parser accepts exactly what `stoi` reads in front of two separators.**

One call, with the two numbers, for every such text; for every other text none.
In no case is a position out of range, and nothing leaves the handler.
-/
theorem onMessage_accepts (sendMsg : SendMsg) (hstd : sendMsg.ThrowsStd) (t : Bytes) :
    (∀ g m, (∃ d, (onMessage sendMsg t).calls = [⟨g, m, d⟩]) ↔ Accepted t g m)
      ∧ ((∀ g m, ¬ Accepted t g m) → (onMessage sendMsg t).calls = [])
      ∧ (∀ pos pos1, find t hash 0 = some pos → find t hash (pos + 1) = some pos1 →
          pos + 1 ≤ pos1 ∧ pos1 + 1 ≤ t.length)
      ∧ (onMessage sendMsg t).escaped = false := by
  refine ⟨?_, ?_, fun pos pos1 => positions_inside, onMessage_escaped hstd t⟩
  · intro g m
    rcases calls_cases sendMsg t with ⟨g', m', d, hacc, hcalls⟩ | ⟨hno, hcalls⟩
    · refine ⟨?_, ?_⟩
      · rintro ⟨d', hd'⟩
        rw [hcalls] at hd'
        obtain ⟨rfl, rfl, rfl⟩ := SendMsgCall.mk.inj (List.cons.inj hd').1
        exact hacc
      · intro h
        obtain ⟨rfl, rfl⟩ := hacc.unique h
        exact ⟨d, hcalls⟩
    · refine ⟨?_, ?_⟩
      · rintro ⟨d', hd'⟩
        rw [hcalls] at hd'
        exact absurd hd' (by simp)
      · intro h
        exact absurd h (hno g m)
  · intro hno
    rcases calls_cases sendMsg t with ⟨g, m, d, hacc, _⟩ | ⟨_, hcalls⟩
    · exact absurd hacc (hno g m)
    · exact hcalls

theorem onMessage_accepts_release :
    (∀ g m, (∃ d, (onMessage sendMsgOk (utf8 "7#2#false")).calls = [⟨g, m, d⟩])
        ↔ Accepted (utf8 "7#2#false") g m)
      ∧ ((∀ g m, ¬ Accepted (utf8 "7#2#false") g m) →
          (onMessage sendMsgOk (utf8 "7#2#false")).calls = [])
      ∧ (∀ pos pos1, find (utf8 "7#2#false") hash 0 = some pos →
          find (utf8 "7#2#false") hash (pos + 1) = some pos1 →
          pos + 1 ≤ pos1 ∧ pos1 + 1 ≤ (utf8 "7#2#false").length)
      ∧ (onMessage sendMsgOk (utf8 "7#2#false")).escaped = false :=
  onMessage_accepts sendMsgOk sendMsgOk_throwsStd (utf8 "7#2#false")

/--
`7abc` is no decimal number, and yet `7abc#2#true` is sent as the command `(7, 2)`,
an emergency stop.
-/
theorem onMessage_letters_behind_digits :
    (onMessage sendMsgOk (utf8 "7abc#2#true")).calls = [⟨7, 2, utf8 "true"⟩]
      ∧ ¬ ∃ g m, WellFormed (utf8 "7abc#2#true") g m := by
  refine ⟨by decide +kernel, ?_⟩
  rintro ⟨g, m, a, b, c, heq, ha, hb⟩
  have hcut : utf8 "7abc#2#true" = command (utf8 "7abc") (utf8 "2") (utf8 "true") := by
    decide +kernel
  rw [hcut] at heq
  obtain ⟨rfl, _⟩ := command_inj (by decide +kernel) (not_mem_numeral ha) (by decide +kernel)
    (not_mem_numeral hb) heq
  -- the letter `a` is neither a minus in front nor a digit
  obtain ⟨ds, neg, hds, ⟨_, hall⟩, _⟩ := ha
  have hmem : (97 : UInt8) ∈ (if neg then [45] else []) ++ ds := hds ▸ (by decide +kernel)
  rcases List.mem_append.mp hmem with h | h
  · cases neg <;> simp at h
  · exact absurd (hall _ h) (by decide)

/--
**A command arrives as it was meant.**

Two numbers in the range of `int`, written in decimal, and any payload; in
particular every frame a page builds.
-/
theorem onMessage_roundTrip (sendMsg : SendMsg) :
    (∀ (g m : Int) (p : Bytes), IsInt g → IsInt m → p ≠ [] →
        (onMessage sendMsg (command (decimal g) (decimal m) p)).calls = [⟨g, m, p⟩])
      ∧ ∀ f : Frame, (onMessage sendMsg (utf8 f.text)).calls = [f.call] :=
  ⟨fun _ _ p hg hm _ => calls_decimal sendMsg hg hm p, calls_frame sendMsg⟩

theorem onMessage_roundTrip_limits :
    (onMessage sendMsgOk (command (decimal (-2147483648)) (decimal 2147483647) (utf8 "\"#\"\n"))).calls
        = [⟨-2147483648, 2147483647, utf8 "\"#\"\n"⟩] :=
  (onMessage_roundTrip sendMsgOk).1 (-2147483648) 2147483647 (utf8 "\"#\"\n")
    (by decide) (by decide) (by decide +kernel)

/-! ## The payload -/

/-- The payload a text asks for: what is behind its second separator, or `null`. -/
def PayloadMeant (t data : Bytes) : Prop :=
  data ≠ [] ∧ ∀ a b c, t = command a b c → hash ∉ a → hash ∉ b →
    data = if c = [] then utf8 "null" else c

/-- The text is accepted, and its second separator is its last character. -/
def EndsInSeparator (t : Bytes) : Prop :=
  ∃ a b g m, t = command a b [] ∧ hash ∉ a ∧ hash ∉ b ∧ StoiText a g ∧ StoiText b m

/-- **The payload of a call is the third piece of the text**, whatever that is. -/
theorem data_of_call {sendMsg : SendMsg} {t : Bytes} {call : SendMsgCall}
    (h : call ∈ (onMessage sendMsg t).calls) :
    ∃ a b, t = command a b call.data ∧ hash ∉ a ∧ hash ∉ b
      ∧ StoiText a call.groupId ∧ StoiText b call.messageId := by
  by_cases hcut : ∃ a b c, t = command a b c ∧ hash ∉ a ∧ hash ∉ b
  · obtain ⟨a, b, c, rfl, ha, hb⟩ := hcut
    rcases calls_command sendMsg (c := c) ha hb with ⟨g, m, hg, hm, hcalls⟩ | ⟨_, hcalls⟩
    · rw [hcalls] at h
      obtain rfl := List.mem_singleton.mp h
      exact ⟨a, b, rfl, ha, hb, stoi_eq_ok_iff.mp hg, stoi_eq_ok_iff.mp hm⟩
    · rw [hcalls] at h
      exact absurd h (by simp)
  · rw [onMessage_other hcut] at h
    exact absurd h (by simp)

/-- A payload that is there is the one the text asks for. -/
theorem payloadMeant_of_ne_nil {a b c : Bytes} (ha : hash ∉ a) (hb : hash ∉ b) (hc : c ≠ []) :
    PayloadMeant (command a b c) c := by
  refine ⟨hc, ?_⟩
  intro a' b' c' heq ha' hb'
  obtain ⟨_, _, rfl⟩ := command_inj ha ha' hb hb' heq
  rw [if_neg hc]

/--
**When a command carries the payload its text asks for.**

Every call made for a text carries the rest of the text, or `null` where there is
none, exactly if the text does not end with its second separator.
-/
theorem payload_meant_iff (sendMsg : SendMsg) (t : Bytes) :
    (∀ call ∈ (onMessage sendMsg t).calls, PayloadMeant t call.data) ↔ ¬ EndsInSeparator t := by
  refine ⟨?_, ?_⟩
  · rintro h ⟨a, b, g, m, rfl, ha, hb, hg, hm⟩
    have hcalls : (onMessage sendMsg (command a b [])).calls = [⟨g, m, []⟩] := by
      have hparsed : parsed a b [] = .ok ⟨g, m, []⟩ :=
        parsed_eq_ok_iff.mpr ⟨stoi_eq_ok_iff.mpr hg, stoi_eq_ok_iff.mpr hm, rfl⟩
      rw [onMessage_command ha hb, hparsed, trySendMsg_ok_calls]
    have hcall : (⟨g, m, []⟩ : SendMsgCall) ∈ (onMessage sendMsg (command a b [])).calls := by
      rw [hcalls]
      exact List.mem_singleton_self _
    exact (h _ hcall).1 rfl
  · intro h call hcall
    obtain ⟨a, b, heq, ha, hb, hg, hm⟩ := data_of_call hcall
    have hdata : call.data ≠ [] := by
      intro hempty
      rw [hempty] at heq
      exact h ⟨a, b, call.groupId, call.messageId, heq, ha, hb, hg, hm⟩
    have hmeant := payloadMeant_of_ne_nil ha hb hdata
    rwa [← heq] at hmeant

/-- `7#7#` is sent with empty data, not with `null`. -/
theorem onMessage_empty_payload :
    (onMessage sendMsgOk (utf8 "7#7#")).calls = [⟨7, 7, []⟩]
      ∧ ¬ ∀ (sendMsg : SendMsg) (t : Bytes), ∀ call ∈ (onMessage sendMsg t).calls,
          PayloadMeant t call.data := by
  have hcalls : (onMessage sendMsgOk (utf8 "7#7#")).calls = [⟨7, 7, []⟩] := by decide +kernel
  refine ⟨hcalls, ?_⟩
  intro h
  have hcall : (⟨7, 7, []⟩ : SendMsgCall) ∈ (onMessage sendMsgOk (utf8 "7#7#")).calls := by
    rw [hcalls]
    exact List.mem_singleton_self _
  exact (h sendMsgOk (utf8 "7#7#") _ hcall).1 rfl

end MobaDisplay
