import MobaDisplay.Lib.CxxString

/-!
# Commands from a page

`wsEndpoint.on_message` cuts a text at its first two `#`, converts the first two
pieces with `std::stoi` and hands the three to `endpoint->sendMsg`. Whatever is
thrown on the way is caught and logged, provided it is a `std::exception`.

`Endpoint` is in a library of its own, so `sendMsg` is a parameter here: what a
call throws, if it throws.
-/

namespace MobaDisplay

open Cxx

/-- The separator of a command, `'#'`. -/
def hash : UInt8 := 35

/-- One call of `endpoint->sendMsg`. -/
structure SendMsgCall where
  groupId : Int
  messageId : Int
  data : Bytes
  deriving DecidableEq

/-- What code outside this repository may throw. -/
inductive Thrown where
  | std (e : Exception)
  | foreign
  deriving DecidableEq

/-- `Endpoint::sendMsg`: what the call throws. -/
abbrev SendMsg := SendMsgCall → Option Thrown

/-- It throws nothing but exceptions derived from `std::exception`. -/
def SendMsg.ThrowsStd (sendMsg : SendMsg) : Prop := ∀ call, sendMsg call ≠ some .foreign

/-- An `Endpoint` whose `sendMsg` always succeeds. -/
def sendMsgOk : SendMsg := fun _ => none

theorem sendMsgOk_throwsStd : sendMsgOk.ThrowsStd := fun _ => by simp [sendMsgOk]

/-- What one run of the handler did. -/
structure Handled where
  /-- The calls of `endpoint->sendMsg`, in order. -/
  calls : List SendMsgCall := []
  /-- What the `catch` clause logged. -/
  caught : Option Exception := none
  /-- Whether an exception left the handler. -/
  escaped : Bool := false
  deriving DecidableEq

/--
The arguments of the call. C++ leaves their order open; only which exception is
logged depends on it.
-/
def sendMsgArgs (out : Bytes) (pos pos1 : Nat) : Except Exception SendMsgCall := do
  let group ← substr out 0 pos
  let groupId ← stoi group
  let message ← substr out (pos + 1) (pos1 - pos - 1)
  let messageId ← stoi message
  let data ← if pos1 + 1 > out.length then pure (utf8 "null") else substrFrom out (pos1 + 1)
  return ⟨groupId, messageId, data⟩

/-- The `try` block: evaluate the arguments, make the call, log what either throws. -/
def trySendMsg (sendMsg : SendMsg) : Except Exception SendMsgCall → Handled
  | .error e => { caught := some e }
  | .ok call =>
      match sendMsg call with
      | none => { calls := [call] }
      | some (.std e) => { calls := [call], caught := some e }
      | some .foreign => { calls := [call], escaped := true }

/-- `wsEndpoint.on_message`, given `in->string()`. -/
def onMessage (sendMsg : SendMsg) (out : Bytes) : Handled :=
  match find out hash 0 with
  | none => {}
  | some pos =>
      match find out hash (pos + 1) with
      | none => {}
      | some pos1 => trySendMsg sendMsg (sendMsgArgs out pos pos1)

@[simp] theorem trySendMsg_error_calls (sendMsg : SendMsg) (e : Exception) :
    (trySendMsg sendMsg (.error e)).calls = [] := rfl

@[simp] theorem trySendMsg_ok_calls (sendMsg : SendMsg) (call : SendMsgCall) :
    (trySendMsg sendMsg (.ok call)).calls = [call] := by
  dsimp only [trySendMsg]
  split <;> rfl

/-- Only a foreign exception of `sendMsg` gets past the `catch` clause. -/
theorem trySendMsg_escaped {sendMsg : SendMsg} (h : sendMsg.ThrowsStd)
    (args : Except Exception SendMsgCall) : (trySendMsg sendMsg args).escaped = false := by
  cases args with
  | error e => rfl
  | ok call =>
      dsimp only [trySendMsg]
      cases hs : sendMsg call with
      | none => rfl
      | some t =>
          cases t with
          | std e => rfl
          | foreign => exact absurd hs (h call)

/-! ## What the handler does with a text of three pieces, and with any other -/

/-- The text `a#b#c`. -/
def command (a b c : Bytes) : Bytes := a ++ hash :: (b ++ hash :: c)

theorem find_first {a b c : Bytes} (ha : hash ∉ a) :
    find (command a b c) hash 0 = some a.length := by
  have h := find_append (p := []) (b := b ++ hash :: c) ha
  simpa [command] using h

theorem find_second {a b c : Bytes} (hb : hash ∉ b) :
    find (command a b c) hash (a.length + 1) = some (a.length + 1 + b.length) := by
  have h := find_append (p := a ++ [hash]) (b := c) hb
  simpa [command] using h

/-- Two separators cut a text in exactly one way. -/
theorem command_inj {a a' b b' c c' : Bytes} (ha : hash ∉ a) (ha' : hash ∉ a')
    (hb : hash ∉ b) (hb' : hash ∉ b') (h : command a b c = command a' b' c') :
    a = a' ∧ b = b' ∧ c = c' := by
  obtain ⟨h1, h2⟩ := split_unique ha ha' h
  obtain ⟨h3, h4⟩ := split_unique hb hb' h2
  exact ⟨h1, h3, h4⟩

/-- Where both searches succeed, the text has three pieces and the positions are their ends. -/
theorem command_of_find {out : Bytes} {pos pos1 : Nat} (h : find out hash 0 = some pos)
    (h1 : find out hash (pos + 1) = some pos1) :
    ∃ a b c, out = command a b c ∧ hash ∉ a ∧ hash ∉ b
      ∧ pos = a.length ∧ pos1 = a.length + 1 + b.length := by
  have hmem : hash ∈ out := by
    by_contra hn
    rw [find_eq_none_iff.mpr (by simpa using hn)] at h
    exact absurd h (by simp)
  obtain ⟨a, rest, rfl, ha⟩ := split_at_first hmem
  have hpos : pos = a.length := by
    have := find_append (p := []) (b := rest) ha
    rw [List.nil_append, List.length_nil, h] at this
    simpa using this
  subst hpos
  have hdrop : (a ++ hash :: rest).drop (a.length + 1) = rest := by simp
  have hmem1 : hash ∈ rest := by
    by_contra hn
    rw [find_eq_none_iff.mpr (by rw [hdrop]; exact hn)] at h1
    exact absurd h1 (by simp)
  obtain ⟨b, c, rfl, hb⟩ := split_at_first hmem1
  have hsecond := find_second (a := a) (c := c) hb
  unfold command at hsecond
  rw [h1] at hsecond
  exact ⟨a, b, c, rfl, ha, hb, rfl, Option.some.inj hsecond⟩

/-- A text with fewer than two separators is dropped. -/
theorem onMessage_other {sendMsg : SendMsg} {out : Bytes}
    (h : ¬ ∃ a b c, out = command a b c ∧ hash ∉ a ∧ hash ∉ b) :
    onMessage sendMsg out = {} := by
  unfold onMessage
  cases hp : find out hash 0 with
  | none => rfl
  | some pos =>
      dsimp only
      cases hp1 : find out hash (pos + 1) with
      | none => rfl
      | some pos1 =>
          obtain ⟨a, b, c, heq, ha, hb, _⟩ := command_of_find hp hp1
          exact absurd ⟨a, b, c, heq, ha, hb⟩ h

/-- The numbers of a command, and the rest of it as it is. -/
def parsed (a b c : Bytes) : Except Exception SendMsgCall := do
  let groupId ← stoi a
  let messageId ← stoi b
  return ⟨groupId, messageId, c⟩

/--
The substrings are the three pieces. The positions are never past the end, so the
branch that would send `null` is not taken, whatever the third piece is.
-/
theorem sendMsgArgs_command (a b c : Bytes) :
    sendMsgArgs (command a b c) a.length (a.length + 1 + b.length) = parsed a b c := by
  have hlen : (command a b c).length = a.length + 1 + b.length + 1 + c.length := by
    simp [command]
    omega
  have hgroup : substr (command a b c) 0 a.length = .ok a := by
    simp [substr, command]
  have hmessage : substr (command a b c) (a.length + 1)
      (a.length + 1 + b.length - a.length - 1) = .ok b := by
    have hdrop : (command a b c).drop (a.length + 1) = b ++ hash :: c := by simp [command]
    rw [substr, if_neg (by omega), hdrop,
      show a.length + 1 + b.length - a.length - 1 = b.length by omega, List.take_left]
  have hdata : substrFrom (command a b c) (a.length + 1 + b.length + 1) = .ok c := by
    have hdrop : (command a b c).drop (a.length + 1 + b.length + 1) = c := by
      have : command a b c = (a ++ hash :: b ++ [hash]) ++ c := by simp [command]
      rw [this, List.drop_left' (by simp; omega)]
    unfold substrFrom
    rw [if_neg (by omega), hdrop]
  simp only [sendMsgArgs, hgroup, hmessage, hdata, if_neg (show ¬ (a.length + 1 + b.length + 1 >
    (command a b c).length) by omega)]
  rfl

/-- What the handler makes of `a#b#c`. -/
theorem onMessage_command {sendMsg : SendMsg} {a b c : Bytes} (ha : hash ∉ a) (hb : hash ∉ b) :
    onMessage sendMsg (command a b c) = trySendMsg sendMsg (parsed a b c) := by
  unfold onMessage
  rw [find_first ha]
  dsimp only
  rw [find_second hb]
  dsimp only
  rw [sendMsgArgs_command]

theorem parsed_eq_ok_iff {a b c : Bytes} {call : SendMsgCall} :
    parsed a b c = .ok call ↔
      stoi a = .ok call.groupId ∧ stoi b = .ok call.messageId ∧ call.data = c := by
  unfold parsed
  cases stoi a with
  | error e => simp [bind, Except.bind]
  | ok g =>
      cases stoi b with
      | error e => simp [bind, Except.bind]
      | ok m =>
          obtain ⟨g', m', c'⟩ := call
          simp [bind, Except.bind, pure, Except.pure, eq_comm]

/-- Two numbers in decimal and any rest. -/
theorem calls_decimal (sendMsg : SendMsg) {g m : Int} (hg : IsInt g) (hm : IsInt m) (p : Bytes) :
    (onMessage sendMsg (command (decimal g) (decimal m) p)).calls = [⟨g, m, p⟩] := by
  have hcut : ∀ v, hash ∉ decimal v := fun v => not_mem_decimal v (by decide) (by decide)
  have hparsed : parsed (decimal g) (decimal m) p = .ok ⟨g, m, p⟩ :=
    parsed_eq_ok_iff.mpr ⟨stoi_decimal hg, stoi_decimal hm, rfl⟩
  rw [onMessage_command (hcut g) (hcut m), hparsed, trySendMsg_ok_calls]

end MobaDisplay
