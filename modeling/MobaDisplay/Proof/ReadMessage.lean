import MobaDisplay.Lib.WebSocketClient
import MobaDisplay.Web.ReadMessage

/-!
# What the server hears of a client

`reads_frame` takes one frame through its two or three reads, whatever has been
said before; `heard` is what a thing said should lead to: the answer to a ping, or one
message with all its fragments. The statement about whole conversations follows by
induction over what is said, and holds for every way the stream is cut.
-/

namespace MobaDisplay

open Cxx BigEndian AsyncRead
open WebSocket (Mask Part Kind Signal Piece Said Begun Goodbye LengthField lengthField_form
  encodeSaid encodeFarewell)

/-! ## One frame -/

namespace Connection

/-- A connection in front of a frame, with the fragments and the log so far. -/
def talking (fragmented : Option InMessage) (log : List Effect) : Connection :=
  { fragmentedInMessage := fragmented, log := log }

/-- The message a payload belongs to, with the payload in it. -/
def filled (c : Connection) (head : UInt8) (payload : Bytes) : InMessage :=
  let inMessage := c.inMessage payload.length head
  { inMessage with streambuf := inMessage.streambuf ++ payload }

/-- A frame's payload put where it belongs, and the message handled. -/
def receive (c : Connection) (head : UInt8) (payload : Bytes) : Connection :=
  (c.keepFragmented head (c.filled head payload)).dispatch payload.length head
    (c.filled head payload)

/-- Which read is under way makes no difference to what is done with a message. -/
theorem dispatch_reading (c : Connection) (r : Reading) (length : Nat) (head : UInt8)
    (m : InMessage) :
    { c with reading := r }.dispatch length head m = c.dispatch length head m := by
  simp only [dispatch, sendClose, connectionClose, logged, readMessage]
  split
  · split <;> rfl
  · rfl

theorem keepFragmented_reading (c : Connection) (r : Reading) (head : UInt8) (m : InMessage) :
    { c with reading := r }.keepFragmented head m
      = { c.keepFragmented head m with reading := r } := by
  unfold keepFragmented
  split <;> rfl

/-- The handler of the last read, on a mask and a payload under it. -/
theorem handleContent_masked {c : Connection} (hbuf : c.streambuf = []) (m : Mask)
    (payload : Bytes) (head : UInt8) :
    { c with
      streambuf := m.bytes ++ m.apply payload
      reading := .content payload.length head }.handleContent payload.length head
      = c.receive head payload := by
  obtain ⟨streambuf, fragmented, closed, reading, log, undefined⟩ := c
  obtain rfl : streambuf = [] := hbuf
  have htake : (m.apply payload).take payload.length = m.apply payload :=
    List.take_of_length_le (by simp)
  have hdrop : (m.apply payload).drop payload.length = [] :=
    List.drop_of_length_le (by simp)
  simp only [handleContent, Mask.bytes, List.cons_append, List.nil_append, htake, hdrop,
    Mask.apply_apply]
  have hfilled : ∀ (c : Connection) (f : InMessage),
      ({ c with reading := .content payload.length head }.keepFragmented head f).dispatch
        payload.length head f = (c.keepFragmented head f).dispatch payload.length head f := by
    intro c f
    rw [keepFragmented_reading, dispatch_reading]
  exact hfilled ⟨[], fragmented, closed, reading, log, undefined⟩ _

end Connection

open Connection

/-- No length is beyond the default limit. -/
theorem not_too_big (n : Nat) : ¬ sizeT n > ({} : SocketConfig).maxMessageSize := by
  have h : sizeT n < 2 ^ 64 := Nat.mod_lt n (by decide)
  show ¬ sizeT n > 2 ^ 64 - 1
  omega

theorem readMessageContent_default (c : Connection) (length : Nat) (head : UInt8) :
    readMessageContent {} c length head = { c with reading := .content length head } := by
  simp only [readMessageContent, if_neg (not_too_big _)]

theorem reads_content {c : Connection} (hbuf : c.streambuf = []) (p : Part) (head : UInt8)
    (rest : Bytes) :
    (reader {}).Reads
      ⟨{ c with reading := .content p.payload.length head }, (p.frame head).content ++ rest⟩
      ⟨c.receive head p.payload, rest⟩ := by
  have hfits := p.fits
  have hlen : ((p.frame head).content).length = 4 + p.payload.length := by
    simp [Part.frame, WebSocket.Frame.content]
  have hneed : (reader {}).need { c with reading := .content p.payload.length head }
      = some ((p.frame head).content).length := by
    rw [hlen]
    show some (sizeT (4 + p.payload.length)) = _
    rw [sizeT, Nat.mod_eq_of_lt (by omega)]
  have hone := Reader.Reads.one hneed rest
  have hhandle : (reader {}).handle { c with reading := .content p.payload.length head }
      (p.frame head).content = c.receive head p.payload := by
    rw [← handleContent_masked hbuf p.mask]
    simp only [reader, handle, hbuf, List.nil_append]
    rfl
  rw [hhandle] at hone
  exact hone

theorem lengthBits {seven : Nat} (h : seven < 128) :
    (UInt8.ofNat (128 + seven) &&& 127).toNat = seven := by
  have hand := Nat.and_two_pow_sub_one_eq_mod (128 + seven) 7
  rw [UInt8.toNat_and, UInt8.toNat_ofNat', Nat.mod_eq_of_lt (by omega)]
  show (128 + seven) &&& (2 ^ 7 - 1) = seven
  rw [hand]
  omega

theorem masked_second {seven : Nat} (h : seven < 128) : ¬ UInt8.ofNat (128 + seven) < 128 := by
  rw [UInt8.lt_iff_toNat_lt, UInt8.toNat_ofNat']
  simp only [UInt8.reduceToNat]
  omega

/-- The first read, and the second one if the length needs it. -/
theorem reads_head {c : Connection} (hbuf : c.streambuf = []) (hreading : c.reading = .firstBytes)
    {length seven : Nat} {ext : Bytes} (hform : LengthField length seven ext) (head : UInt8)
    (rest : Bytes) :
    (reader {}).Reads ⟨c, head :: UInt8.ofNat (128 + seven) :: (ext ++ rest)⟩
      ⟨{ c with reading := .content length head }, rest⟩ := by
  obtain ⟨streambuf, fragmented, closed, reading, log, undefined⟩ := c
  obtain rfl : streambuf = [] := hbuf
  obtain rfl : reading = .firstBytes := hreading
  have hseven := hform.lt
  have hneed : (reader {}).need ⟨[], fragmented, closed, .firstBytes, log, undefined⟩
      = some [head, UInt8.ofNat (128 + seven)].length := rfl
  have hfirst := Reader.Reads.one hneed (ext ++ rest)
  simp only [List.cons_append, List.nil_append] at hfirst
  have hhandle : (reader {}).handle ⟨[], fragmented, closed, .firstBytes, log, undefined⟩
      [head, UInt8.ofNat (128 + seven)]
        = if seven = 126 then ⟨[], fragmented, closed, .lengthBytes 2 head, log, undefined⟩
          else if seven = 127 then ⟨[], fragmented, closed, .lengthBytes 8 head, log, undefined⟩
          else ⟨[], fragmented, closed, .content seven head, log, undefined⟩ := by
    simp only [reader, handle, List.nil_append, handleFirstBytes, if_neg (masked_second hseven),
      lengthBits hseven, readMessageContent_default]
  rw [hhandle] at hfirst
  -- a length of its own is read in one more step
  have hsecond : ∀ {n : Nat}, length < 256 ^ n →
      (reader {}).Reads
        ⟨⟨[], fragmented, closed, .lengthBytes n head, log, undefined⟩, bigEndian n length ++ rest⟩
        ⟨⟨[], fragmented, closed, .content length head, log, undefined⟩, rest⟩ := by
    intro n hlt
    have hneed : (reader {}).need ⟨[], fragmented, closed, .lengthBytes n head, log, undefined⟩
        = some (bigEndian n length).length := by
      rw [length_bigEndian]
      rfl
    have hone := Reader.Reads.one hneed rest
    have hhandle : (reader {}).handle ⟨[], fragmented, closed, .lengthBytes n head, log, undefined⟩
        (bigEndian n length) = ⟨[], fragmented, closed, .content length head, log, undefined⟩ := by
      have htake : (bigEndian n length).take n = bigEndian n length :=
        List.take_of_length_le (by simp)
      have hdrop : (bigEndian n length).drop n = [] := List.drop_of_length_le (by simp)
      simp only [reader, handle, List.nil_append, handleLengthBytes, readMessageContent_default,
        htake, hdrop, ofBigEndian_bigEndian_of_lt hlt]
    rw [hhandle] at hone
    exact hone
  cases hform with
  | seven hlt =>
      rw [if_neg (by omega), if_neg (by omega)] at hfirst
      exact hfirst
  | two hlt =>
      rw [if_pos rfl] at hfirst
      exact hfirst.trans (hsecond hlt)
  | eight hlt =>
      rw [if_neg (by decide), if_pos rfl] at hfirst
      exact hfirst.trans (hsecond hlt)

/-- **One frame of a client**, from its first byte to its handler. -/
theorem reads_frame {c : Connection} (hbuf : c.streambuf = [])
    (hreading : c.reading = .firstBytes) (p : Part) (head : UInt8) (rest : Bytes) :
    (reader {}).Reads ⟨c, (p.frame head).encode ++ rest⟩ ⟨c.receive head p.payload, rest⟩ := by
  have hfits := p.fits
  have hform : LengthField p.payload.length _ _ := lengthField_form (by omega)
  have hhead := reads_head hbuf hreading hform head ((p.frame head).content ++ rest)
  have hcontent := reads_content hbuf p head rest
  have hencode : (p.frame head).encode ++ rest
      = head :: UInt8.ofNat (128 + (WebSocket.lengthField p.payload.length).1)
        :: ((WebSocket.lengthField p.payload.length).2 ++ ((p.frame head).content ++ rest)) := by
    simp [WebSocket.Frame.encode, Part.frame, WebSocket.Frame.maskBit]
  rw [hencode]
  exact hhead.trans hcontent

/-! ## A conversation -/

/-- What a ping or a pong should lead to. -/
def heardSignal (payload : Bytes) : Signal → List Effect
  | .ping => [.send payload 0x8a, .onPing]
  | .pong => [.onPong]

def heardPiece : Piece → List Effect
  | .signal s p => heardSignal p.payload s
  | .part _ => []

/-- What a thing said should lead to. -/
def heard : Said → List Effect
  | .signal s p => heardSignal p.payload s
  | .whole k p => [.onMessage ⟨0x80 ||| k.opcode, p.payload.length, p.payload⟩]
  | .pieces k first middle last =>
      let content := first.payload ++ middle.flatMap Piece.payload ++ last.payload
      middle.flatMap heardPiece
        ++ [.onMessage ⟨0x80 ||| k.opcode, sizeT content.length, content⟩]

theorem receive_signal (fragmented : Option InMessage) (log : List Effect) (s : Signal)
    (payload : Bytes) :
    (talking fragmented log).receive (0x80 ||| s.opcode) payload
      = talking fragmented (log ++ heardSignal payload s) := by
  cases s with
  | ping => rfl
  | pong => rfl

theorem receive_whole (log : List Effect) (k : Kind) (payload : Bytes) :
    (talking none log).receive (0x80 ||| k.opcode) payload
      = talking none (log ++ [.onMessage ⟨0x80 ||| k.opcode, payload.length, payload⟩]) := by
  cases k with
  | text => rfl
  | binary => rfl

theorem receive_first (log : List Effect) (k : Kind) (payload : Bytes) :
    (talking none log).receive k.opcode payload
      = talking (some ⟨0x80 ||| k.opcode, payload.length, payload⟩) log := by
  cases k with
  | text => rfl
  | binary => rfl

theorem receive_part (m : InMessage) (log : List Effect) (payload : Bytes) :
    (talking (some m) log).receive 0 payload
      = talking (some ⟨m.finRsvOpcode, sizeT (m.length + payload.length),
          m.streambuf ++ payload⟩) log := rfl

theorem receive_last (m : InMessage) (log : List Effect) (payload : Bytes) :
    (talking (some m) log).receive 0x80 payload
      = talking none (log ++ [.onMessage ⟨m.finRsvOpcode, sizeT (m.length + payload.length),
          m.streambuf ++ payload⟩]) := rfl

theorem sizeT_add (a b : Nat) : sizeT (sizeT a + b) = sizeT (a + b) := Nat.mod_add_mod a _ b

theorem sizeT_part (p : Part) : sizeT p.payload.length = p.payload.length :=
  Nat.mod_eq_of_lt (by have := p.fits; omega)

/-- The fragments between the first and the last, and the signals among them. -/
theorem reads_middle (head : UInt8) (middle : List Piece) (before : Bytes) (log : List Effect)
    (rest : Bytes) :
    (reader {}).Reads
      ⟨talking (some ⟨head, sizeT before.length, before⟩) log,
        (middle.map Piece.frame).flatMap WebSocket.Frame.encode ++ rest⟩
      ⟨talking (some ⟨head, sizeT (before ++ middle.flatMap Piece.payload).length,
          before ++ middle.flatMap Piece.payload⟩) (log ++ middle.flatMap heardPiece), rest⟩ := by
  -- `before` is what has been collected; a signal leaves it alone, a part is put behind it
  induction middle generalizing before log with
  | nil => simpa using Reader.Reads.refl _
  | cons piece middle ih =>
      rw [List.map_cons, List.flatMap_cons, List.append_assoc]
      cases piece with
      | signal s p =>
          have hone := reads_frame (c := talking (some ⟨head, sizeT before.length, before⟩) log)
            rfl rfl p (0x80 ||| s.opcode)
            ((middle.map Piece.frame).flatMap WebSocket.Frame.encode ++ rest)
          rw [receive_signal] at hone
          have hmore := ih before (log ++ heardSignal p.payload s)
          simp only [List.append_assoc] at hmore
          simp only [List.flatMap_cons, heardPiece, Piece.payload, Piece.frame, List.nil_append]
          exact hone.trans hmore
      | part p =>
          have hone := reads_frame (c := talking (some ⟨head, sizeT before.length, before⟩) log)
            rfl rfl p 0 ((middle.map Piece.frame).flatMap WebSocket.Frame.encode ++ rest)
          rw [receive_part] at hone
          rw [sizeT_add, ← List.length_append] at hone
          have hmore := ih (before ++ p.payload) log
          simp only [List.append_assoc] at hmore
          simp only [List.flatMap_cons, heardPiece, Piece.payload, Piece.frame, List.nil_append]
          exact hone.trans hmore

/-- **One thing said is heard**, and the connection is in front of the next frame. -/
theorem reads_one (said : Said) (log : List Effect) (rest : Bytes) :
    (reader {}).Reads
      ⟨talking none log, said.frames.flatMap WebSocket.Frame.encode ++ rest⟩
      ⟨talking none (log ++ heard said), rest⟩ := by
  cases said with
  | signal s p =>
      have hone := reads_frame (c := talking none log) rfl rfl p (0x80 ||| s.opcode) rest
      rw [receive_signal] at hone
      simpa [Said.frames, heard] using hone
  | whole k p =>
      have hone := reads_frame (c := talking none log) rfl rfl p (0x80 ||| k.opcode) rest
      rw [receive_whole] at hone
      simpa [Said.frames, heard] using hone
  | pieces k first middle last =>
      have hfirst := reads_frame (c := talking none log) rfl rfl first k.opcode
        ((middle.map Piece.frame).flatMap WebSocket.Frame.encode
          ++ ((last.frame 0x80).encode ++ rest))
      rw [receive_first, ← sizeT_part] at hfirst
      have hmiddle := reads_middle (0x80 ||| k.opcode) middle first.payload log
        ((last.frame 0x80).encode ++ rest)
      have hlast := reads_frame (c := talking (some ⟨0x80 ||| k.opcode,
        sizeT (first.payload ++ middle.flatMap Piece.payload).length,
        first.payload ++ middle.flatMap Piece.payload⟩) (log ++ middle.flatMap heardPiece))
        rfl rfl last 0x80 rest
      rw [receive_last, sizeT_add, ← List.length_append] at hlast
      have hall := (hfirst.trans hmiddle).trans hlast
      simpa [Said.frames, heard] using hall

/-- **What is said is heard**, thing by thing. -/
theorem reads_said (said : List Said) (log : List Effect) (rest : Bytes) :
    (reader {}).Reads
      ⟨talking none log, encodeSaid said ++ rest⟩
      ⟨talking none (log ++ said.flatMap heard), rest⟩ := by
  induction said generalizing log with
  | nil => simpa [encodeSaid] using Reader.Reads.refl _
  | cons first said ih =>
      have hone := reads_one first log (encodeSaid said ++ rest)
      have hmore := ih (log ++ heard first)
      simp only [encodeSaid, List.flatMap_cons, List.flatMap_append, List.append_assoc]
        at hone hmore ⊢
      -- the connection is in front of a frame again, as it was at first
      exact hone.trans hmore

/-! ## The log only grows -/

theorem Outcome.log_prefix {log : List Effect} {c : Connection} (h : Outcome log c) :
    log <+: c.log := by
  cases h with
  | talks effects _ hlog _ _ => exact ⟨effects, hlog.symm⟩
  | ends effects _ hlog _ => exact ⟨effects, hlog.symm⟩

/-- A connection that reads has not sent a close frame. -/
def Unclosed (c : Connection) : Prop := c.reading = .ended ∨ c.closed = false

theorem Outcome.unclosed {log : List Effect} {c : Connection} (h : Outcome log c) :
    Unclosed c := by
  cases h with
  | talks _ _ _ hclosed _ => exact Or.inr hclosed
  | ends _ _ _ hended => exact Or.inl hended

theorem reading_of_need {config : SocketConfig} {c : Connection} {n : Nat}
    (h : (reader config).need c = some n) : c.reading ≠ .ended := by
  intro hended
  have hnone : (reader config).need c = none := by simp [reader, need, hended]
  rw [h] at hnone
  exact absurd hnone (by simp)

theorem outcome_of_need {config : SocketConfig} {c : Connection} {n : Nat}
    (hneed : (reader config).need c = some n) (hc : Unclosed c) (bytes : Bytes) :
    Outcome c.log ((reader config).handle c bytes) :=
  outcome_handle config (hc.resolve_left (reading_of_need hneed)) (reading_of_need hneed) bytes

/-- Every handler adds to the log. -/
theorem reads_grows {config : SocketConfig} {x y : Link Connection}
    (h : (reader config).Reads x y) (hx : Unclosed x.state) :
    x.state.log <+: y.state.log ∧ Unclosed y.state := by
  refine h.invariant (P := fun c => x.state.log <+: c.log ∧ Unclosed c) ?_
    ⟨List.prefix_refl _, hx⟩
  intro c n bytes hneed _ hc
  have houtcome := outcome_of_need hneed hc.2 bytes
  exact ⟨hc.1.trans houtcome.log_prefix, houtcome.unclosed⟩

/-- In front of a frame that has not come in there is nothing to do. -/
theorem quiet_talking (config : SocketConfig) (log : List Effect) :
    (reader config).Quiet ⟨talking none log, []⟩ := rfl

theorem quiet_ended (config : SocketConfig) {c : Connection} (h : c.reading = .ended)
    (received : Bytes) : (reader config).Quiet ⟨c, received⟩ := by
  simp [Reader.Quiet, Reader.complete, reader, need, h]

/--
A run that got the beginning of a stream has logged the beginning of what the stream
leads to; having got all of it, it will come to rest where the stream leads.
-/
theorem course_of_run {stream : Bytes} {z : Link Connection}
    (hz : (reader {}).Reads ⟨talking none [], stream⟩ z) (hquiet : (reader {}).Quiet z)
    {es : List (Event Failure)} (hes : Reader.Undisturbed es)
    (harrived : Reader.arrived es <+: stream) {y : Link Connection}
    (hrun : ((reader {}).system .opened).run ⟨.opened, []⟩ es = some y) :
    y.state.log <+: z.state.log
      ∧ (Reader.arrived es = stream → (reader {}).Settles y z.state) := by
  have hreads : (reader {}).Reads ⟨talking none [], Reader.arrived es⟩ y :=
    Reader.run_reads hes hrun
  refine ⟨?_, ?_⟩
  · -- what is still to come only continues these reads
    obtain ⟨more, rfl⟩ := harrived
    have hunclosed : Unclosed y.state := (reads_grows hreads (Or.inr rfl)).2
    have hcontinue := (hreads.append more).to_quiet hz hquiet
    exact (reads_grows hcontinue hunclosed).1
  · -- reads from one state end in one place, in whatever order they complete
    intro heq
    rw [heq] at hreads
    exact (hreads.to_quiet hz hquiet).settles hquiet

/--
**Every message of a client is heard once, whole and in order, and every ping
answered**, however the client cuts its messages into fragments, whatever masks it
takes, and however the network cuts the stream. Before the whole stream has come in,
what has been heard is the beginning of it.
-/
theorem conversation_heard (said : List Said) {es : List (Event Failure)}
    (hes : Reader.Undisturbed es) (harrived : Reader.arrived es <+: encodeSaid said)
    {y : Link Connection} (hrun : ((reader {}).system .opened).run ⟨.opened, []⟩ es = some y) :
    y.state.log <+: said.flatMap heard
      ∧ (Reader.arrived es = encodeSaid said →
        (reader {}).Settles y (talking none (said.flatMap heard))) := by
  have hall := reads_said said [] []
  rw [List.append_nil] at hall
  exact course_of_run hall (quiet_talking {} _) hes harrived hrun

/-- A message in two fragments with a ping between them. -/
def pinged : Said :=
  .pieces .text ⟨⟨1, 2, 3, 4⟩, utf8 "7#2#", by decide +kernel⟩
    [.signal .ping ⟨⟨5, 6, 7, 8⟩, [9], by decide⟩] ⟨⟨0, 9, 0, 9⟩, utf8 "true", by decide +kernel⟩

/-- Its bytes come in after seven, and some of the reads complete. -/
def pingedRun : List (Event Failure) :=
  [.arrive ((encodeSaid [pinged]).take 7), .complete, .arrive ((encodeSaid [pinged]).drop 7),
    .complete, .complete, .complete, .complete]

theorem conversation_heard_pinged :
    ∃ y, ((reader {}).system .opened).run ⟨.opened, []⟩ pingedRun = some y
      ∧ y.state.log = [.send [9] 0x8a, .onPing]
      ∧ (reader {}).Settles y (talking none
        [.send [9] 0x8a, .onPing, .onMessage ⟨0x81, 8, utf8 "7#2#true"⟩]) := by
  have hrun : (((reader {}).system .opened).run ⟨.opened, []⟩ pingedRun).map
      (fun y => y.state.log) = some [.send [9] 0x8a, .onPing] := by
    decide +kernel
  obtain ⟨y, hy, hlog⟩ := Option.map_eq_some_iff.mp hrun
  have hheard : [pinged].flatMap heard
      = [.send [9] 0x8a, .onPing, .onMessage ⟨0x81, 8, utf8 "7#2#true"⟩] := by
    decide +kernel
  have harrived : Reader.arrived pingedRun = encodeSaid [pinged] := by decide +kernel
  have hundisturbed : Reader.Undisturbed pingedRun := by simp [Reader.Undisturbed, pingedRun]
  have hall := conversation_heard [pinged] hundisturbed (harrived ▸ List.prefix_refl _) hy
  rw [hheard] at hall
  exact ⟨y, hy, hlog, hall.2 harrived⟩

/-! ## The end of a conversation -/

/-- What the last frame leads to. A close is sent back with its status and its reason. -/
def heardGoodbye : Goodbye → List Effect
  | .close p =>
      if 2 ≤ p.payload.length then
        [.send p.payload 136, .erase,
          .onClose (ofBigEndian (p.payload.take 2)) (p.payload.drop 2)]
      else
        [.send (0 :: 0 :: p.payload) 136, .erase, .onClose 0 p.payload]
  | .unmasked _ _ _ =>
      [closeFrame 1002 (utf8 "message from client not masked"), .erase,
        .onClose 1002 (utf8 "message from client not masked")]

def heardBegun (begun : Option Begun) : List Effect :=
  (begun.map fun b => b.middle.flatMap heardPiece).getD []

/-- The fragments of a message that is begun. -/
def fragments (begun : Option Begun) : Option InMessage :=
  begun.map fun b =>
    ⟨0x80 ||| b.kind.opcode, sizeT (b.first.payload ++ b.middle.flatMap Piece.payload).length,
      b.first.payload ++ b.middle.flatMap Piece.payload⟩

/-- The connection after its last frame. -/
def ended (fragmented : Option InMessage) (log : List Effect) : Connection :=
  { fragmentedInMessage := fragmented, closed := true, reading := .ended, log := log }

/-- A status of two bytes is sent back as these two bytes. -/
theorem closeFrame_status (byte1 byte2 : UInt8) (reason : Bytes) :
    closeFrame ((byte1.toNat <<< 8) + byte2.toNat) reason
      = .send (byte1 :: byte2 :: reason) 136 := by
  have h2 : byte2.toNat < 256 := byte2.toNat_lt
  have hhigh : ((byte1.toNat <<< 8) + byte2.toNat) >>> 8 = byte1.toNat := by
    rw [Nat.shiftLeft_eq, Nat.shiftRight_eq_div_pow]
    omega
  have hlow : ((byte1.toNat <<< 8) + byte2.toNat) % 256 = byte2.toNat := by
    rw [Nat.shiftLeft_eq]
    omega
  rw [closeFrame, hhigh, hlow, UInt8.ofNat_toNat, UInt8.ofNat_toNat]

theorem receive_close (fragmented : Option InMessage) (log : List Effect) (p : Part) :
    (talking fragmented log).receive 0x88 p.payload
      = ended fragmented (log ++ heardGoodbye (.close p)) := by
  have hclose : ∀ status reason,
      ((talking fragmented log).sendClose status reason).connectionClose status reason
        = ended fragmented (log ++ [closeFrame status reason, .erase, .onClose status reason]) := by
    intro status reason
    simp [sendClose, connectionClose, logged, talking, ended, closeFrame]
  have hreceive : (talking fragmented log).receive 0x88 p.payload
      = ended fragmented (log ++
          [closeFrame (closeStatus p.payload.length ⟨0x88, p.payload.length, p.payload⟩).1
            (closeStatus p.payload.length ⟨0x88, p.payload.length, p.payload⟩).2, .erase,
          .onClose (closeStatus p.payload.length ⟨0x88, p.payload.length, p.payload⟩).1
            (closeStatus p.payload.length ⟨0x88, p.payload.length, p.payload⟩).2]) := by
    rw [← hclose]
    rfl
  rw [hreceive, heardGoodbye]
  congr 2
  -- without two bytes for a status the server answers with 0
  by_cases hlong : 2 ≤ p.payload.length
  · rw [if_pos hlong]
    obtain ⟨byte1, tail, htail⟩ :=
      List.exists_cons_of_length_pos (show 0 < p.payload.length by omega)
    obtain ⟨byte2, reason, hreason⟩ := List.exists_cons_of_length_pos (l := tail) (by
      rw [htail, List.length_cons] at hlong
      omega)
    rw [htail, hreason] at hlong ⊢
    simp only [closeStatus, ge_iff_le, hlong, if_true, List.headD_cons, List.drop_succ_cons,
      List.drop_zero, closeFrame_status, List.take_succ_cons, List.take_zero]
    simp [ofBigEndian]
  · rw [if_neg hlong]
    simp only [closeStatus, ge_iff_le, hlong, if_false]
    rfl

/-- The last frame, whatever message it may interrupt. -/
theorem reads_goodbye (fragmented : Option InMessage) (log : List Effect) (goodbye : Goodbye)
    (rest : Bytes) :
    ∃ received, (reader {}).Reads
      ⟨talking fragmented log, goodbye.frame.encode ++ rest⟩
      ⟨ended fragmented (log ++ heardGoodbye goodbye), received⟩ := by
  cases goodbye with
  | close p =>
      have hone := reads_frame (c := talking fragmented log) rfl rfl p 0x88 rest
      rw [receive_close] at hone
      exact ⟨rest, hone⟩
  | unmasked head payload fits =>
      -- the first two bytes are enough to see that the mask is missing
      have hform : LengthField payload.length _ _ := lengthField_form fits
      have hseven := hform.lt
      have hsecond : UInt8.ofNat (WebSocket.lengthField payload.length).1 < 128 := by
        rw [UInt8.lt_iff_toNat_lt, UInt8.toNat_ofNat']
        simp only [UInt8.reduceToNat]
        omega
      have hneed : (reader {}).need (talking fragmented log)
          = some [head, UInt8.ofNat (WebSocket.lengthField payload.length).1].length := rfl
      have hone := Reader.Reads.one hneed
        ((WebSocket.lengthField payload.length).2 ++ (payload ++ rest))
      have hhandle : (reader {}).handle (talking fragmented log)
          [head, UInt8.ofNat (WebSocket.lengthField payload.length).1]
            = ended fragmented (log ++ heardGoodbye (.unmasked head payload fits)) := by
        simp only [reader, handle, talking, List.nil_append, handleFirstBytes, if_pos hsecond]
        simp [sendClose, connectionClose, logged, ended, heardGoodbye, closeFrame]
      rw [hhandle] at hone
      refine ⟨(WebSocket.lengthField payload.length).2 ++ (payload ++ rest), ?_⟩
      simpa [Goodbye.frame, WebSocket.Frame.encode, WebSocket.Frame.maskBit,
        WebSocket.Frame.content] using hone

theorem reads_begun (begun : Option Begun) (log : List Effect) (rest : Bytes) :
    (reader {}).Reads
      ⟨talking none log, ((begun.map Begun.frames).getD []).flatMap WebSocket.Frame.encode ++ rest⟩
      ⟨talking (fragments begun) (log ++ heardBegun begun), rest⟩ := by
  cases begun with
  | none => simpa [fragments, heardBegun] using Reader.Reads.refl _
  | some b =>
      have hfirst := reads_frame (c := talking none log) rfl rfl b.first b.kind.opcode
        ((b.middle.map Piece.frame).flatMap WebSocket.Frame.encode ++ rest)
      rw [receive_first, ← sizeT_part] at hfirst
      have hmiddle := reads_middle (0x80 ||| b.kind.opcode) b.middle b.first.payload log rest
      have hall := hfirst.trans hmiddle
      simpa [Begun.frames, fragments, heardBegun] using hall

/--
**A connection ends with one close frame, and nothing is heard after it.** What was
said before is heard as ever; a message that is not finished is not. A close is
answered with its own status and reason, and a frame without a mask with 1002.
-/
theorem farewell_heard (said : List Said) (begun : Option Begun) (goodbye : Goodbye)
    (after : Bytes) {es : List (Event Failure)} (hes : Reader.Undisturbed es)
    (harrived : Reader.arrived es <+: encodeFarewell said begun goodbye ++ after)
    {y : Link Connection} (hrun : ((reader {}).system .opened).run ⟨.opened, []⟩ es = some y) :
    y.state.log <+: said.flatMap heard ++ heardBegun begun ++ heardGoodbye goodbye
      ∧ (Reader.arrived es = encodeFarewell said begun goodbye ++ after →
        (reader {}).Settles y (ended (fragments begun)
          (said.flatMap heard ++ heardBegun begun ++ heardGoodbye goodbye))) := by
  have hsaid := reads_said said []
    (((begun.map Begun.frames).getD []).flatMap WebSocket.Frame.encode
      ++ (goodbye.frame.encode ++ after))
  have hbegun := reads_begun begun (said.flatMap heard) (goodbye.frame.encode ++ after)
  obtain ⟨received, hgoodbye⟩ := reads_goodbye (fragments begun)
    (said.flatMap heard ++ heardBegun begun) goodbye after
  have hall := (hsaid.trans hbegun).trans hgoodbye
  have hstream : encodeSaid said
      ++ (((begun.map Begun.frames).getD []).flatMap WebSocket.Frame.encode
        ++ (goodbye.frame.encode ++ after))
      = encodeFarewell said begun goodbye ++ after := by
    simp [encodeFarewell]
  rw [hstream] at hall
  exact course_of_run hall (quiet_ended {} rfl received) hes harrived hrun

/-- A close frame in the middle of a message, and a byte after it. -/
def closedRun : List (Event Failure) :=
  [.arrive (encodeFarewell [pinged]
      (some ⟨.binary, ⟨⟨1, 1, 1, 1⟩, [2, 3], by decide⟩, []⟩)
      (.close ⟨⟨7, 7, 7, 7⟩, [3, 232, 98], by decide⟩) ++ [0])]

theorem farewell_heard_closed :
    ∃ y, ((reader {}).system .opened).run ⟨.opened, []⟩ closedRun = some y
      ∧ (reader {}).Settles y (ended (some ⟨0x82, 2, [2, 3]⟩)
        [.send [9] 0x8a, .onPing, .onMessage ⟨0x81, 8, utf8 "7#2#true"⟩,
          .send [3, 232, 98] 136, .erase, .onClose 1000 [98]]) := by
  have hrun : ((reader {}).system .opened).run ⟨.opened, []⟩ closedRun
      = some ⟨.opened, Reader.arrived closedRun⟩ := by
    decide +kernel
  have hheard : [pinged].flatMap heard
        ++ heardBegun (some ⟨.binary, ⟨⟨1, 1, 1, 1⟩, [2, 3], by decide⟩, []⟩)
        ++ heardGoodbye (.close ⟨⟨7, 7, 7, 7⟩, [3, 232, 98], by decide⟩)
      = [.send [9] 0x8a, .onPing, .onMessage ⟨0x81, 8, utf8 "7#2#true"⟩,
          .send [3, 232, 98] 136, .erase, .onClose 1000 [98]] := by
    decide +kernel
  have harrived : Reader.arrived closedRun = encodeFarewell [pinged]
      (some ⟨.binary, ⟨⟨1, 1, 1, 1⟩, [2, 3], by decide⟩, []⟩)
      (.close ⟨⟨7, 7, 7, 7⟩, [3, 232, 98], by decide⟩) ++ [0] := by
    simp [closedRun, Reader.arrived]
  have hundisturbed : Reader.Undisturbed closedRun := by simp [Reader.Undisturbed, closedRun]
  have hall := farewell_heard [pinged] (some ⟨.binary, ⟨⟨1, 1, 1, 1⟩, [2, 3], by decide⟩, []⟩)
    (.close ⟨⟨7, 7, 7, 7⟩, [3, 232, 98], by decide⟩) [0] hundisturbed
    ⟨[], by rw [List.append_nil, harrived]⟩ hrun
  rw [hheard] at hall
  exact ⟨_, hrun, hall.2 harrived⟩

end MobaDisplay
