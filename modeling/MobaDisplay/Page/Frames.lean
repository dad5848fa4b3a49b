import MobaDisplay.Server.OnMessage

/-!
# The frames a page sends

Every `ws.send` of `websocket.js`, with the text it builds and the command it
means. `val()` of a form field is a text of any kind, `null` when no option is
selected; it goes into the frame as it is.
-/

namespace MobaDisplay

open Cxx

/-- The places of `websocket.js` that send something. -/
inductive Frame where
  /-- `GET_HARDWARE_STATE`, on open. -/
  | getHardwareState
  /-- `GET_TRAIN_LIST_REQ`, on open. -/
  | getTrainListReq
  /-- `GET_BLOCK_LIST_REQ`, on open. -/
  | getBlockListReq
  /-- `GET_SWITCH_STAND_LIST_REQ`, on open. -/
  | getSwitchStandListReq
  /-- A click on `#emergency-button`, with one of the two messages stored there. -/
  | emergency (stop : Bool)
  /-- A click on `#direction-button`. -/
  | direction (locoList : String)
  /-- A change of `#locoSpeed`. -/
  | speed (locoList locoSpeed : String)
  deriving DecidableEq

namespace Frame

/-- The text handed to `ws.send`. -/
def text : Frame → String
  | getHardwareState => "7#7#null"
  | getTrainListReq => "10#7#null"
  | getBlockListReq => "10#1#null"
  | getSwitchStandListReq => "10#4#null"
  | emergency true => "7#2#true"
  | emergency false => "7#2#false"
  | direction locoList =>
      "6#5#\x7b\"localId\":" ++ locoList ++ ",\"direction\":\"TOGGLE\"\x7d"
  | speed locoList locoSpeed =>
      "6#4#\x7b\"localId\":" ++ locoList ++ ",\"speed\":" ++ locoSpeed ++ "\x7d"

/-- The four frames of `ws.onopen`, in the order they are sent. -/
def onopen : List Frame :=
  [getHardwareState, getTrainListReq, getBlockListReq, getSwitchStandListReq]

/-- The JSON text behind the two ids. -/
def payload : Frame → String
  | getHardwareState => "null"
  | getTrainListReq => "null"
  | getBlockListReq => "null"
  | getSwitchStandListReq => "null"
  | emergency true => "true"
  | emergency false => "false"
  | direction locoList => "\x7b\"localId\":" ++ locoList ++ ",\"direction\":\"TOGGLE\"\x7d"
  | speed locoList locoSpeed =>
      "\x7b\"localId\":" ++ locoList ++ ",\"speed\":" ++ locoSpeed ++ "\x7d"

/-- The command a frame means. -/
def call (f : Frame) : SendMsgCall :=
  match f with
  | getHardwareState => ⟨7, 7, utf8 f.payload⟩
  | getTrainListReq => ⟨10, 7, utf8 f.payload⟩
  | getBlockListReq => ⟨10, 1, utf8 f.payload⟩
  | getSwitchStandListReq => ⟨10, 4, utf8 f.payload⟩
  | emergency _ => ⟨7, 2, utf8 f.payload⟩
  | direction _ => ⟨6, 5, utf8 f.payload⟩
  | speed _ _ => ⟨6, 4, utf8 f.payload⟩

theorem call_isInt (f : Frame) : IsInt f.call.groupId ∧ IsInt f.call.messageId := by
  cases f <;> exact ⟨by simp only [call]; decide, by simp only [call]; decide⟩

/-- A frame is the two ids in decimal and the payload, cut by the separator. -/
theorem utf8_text (f : Frame) :
    utf8 f.text = command (decimal f.call.groupId) (decimal f.call.messageId) f.call.data := by
  have h6 : decimal 6 = [54] := by simp [decimal, natDigits]
  have h5 : decimal 5 = [53] := by simp [decimal, natDigits]
  have h4 : decimal 4 = [52] := by simp [decimal, natDigits]
  have h7 : decimal 7 = [55] := by simp [decimal, natDigits]
  have h2 : decimal 2 = [50] := by simp [decimal, natDigits]
  have h1 : decimal 1 = [49] := by simp [decimal, natDigits]
  have h10 : decimal 10 = [49, 48] := by simp [decimal, natDigits]
  cases f with
  | getHardwareState => simp only [call, h7]; decide +kernel
  | getTrainListReq => simp only [call, h7, h10]; decide +kernel
  | getBlockListReq => simp only [call, h1, h10]; decide +kernel
  | getSwitchStandListReq => simp only [call, h4, h10]; decide +kernel
  | emergency stop => simp only [call, h7, h2]; cases stop <;> decide +kernel
  | direction locoList =>
      change utf8 ("6#5#\x7b\"localId\":" ++ locoList ++ ",\"direction\":\"TOGGLE\"\x7d")
        = command (decimal 6) (decimal 5)
          (utf8 ("\x7b\"localId\":" ++ locoList ++ ",\"direction\":\"TOGGLE\"\x7d"))
      have hids : utf8 "6#5#\x7b\"localId\":"
          = 54 :: 35 :: 53 :: 35 :: utf8 "\x7b\"localId\":" := by
        decide +kernel
      simp only [utf8_append, h6, h5, hids, command, hash, List.cons_append, List.nil_append]
  | speed locoList locoSpeed =>
      change utf8 ("6#4#\x7b\"localId\":" ++ locoList ++ ",\"speed\":" ++ locoSpeed ++ "\x7d")
        = command (decimal 6) (decimal 4)
          (utf8 ("\x7b\"localId\":" ++ locoList ++ ",\"speed\":" ++ locoSpeed ++ "\x7d"))
      have hids : utf8 "6#4#\x7b\"localId\":"
          = 54 :: 35 :: 52 :: 35 :: utf8 "\x7b\"localId\":" := by
        decide +kernel
      simp only [utf8_append, h6, h4, hids, command, hash, List.cons_append, List.nil_append]

end Frame

/-- **Every frame a page sends reaches `sendMsg` as the command it means.** -/
theorem calls_frame (sendMsg : SendMsg) (f : Frame) :
    (onMessage sendMsg (utf8 f.text)).calls = [f.call] := by
  rw [f.utf8_text]
  exact calls_decimal sendMsg f.call_isInt.1 f.call_isInt.2 f.call.data

end MobaDisplay
