import MobaDisplay.Lib.BigEndian

/-!
# The frames of the websocket protocol

A frame is a byte with the final flag and the opcode, a length in one of three
forms, a mask if it comes from a client, and the payload. `encode` writes it with the
shortest form of its length; `decode` reads one frame off a stream, in any of the
three forms. What is written is read back, whatever comes after it, and so a stream
of frames is cut back into the same frames.
-/

namespace WebSocket

open Cxx (Bytes)
open BigEndian

/-- Four bytes, used over and over. -/
structure Mask where
  m0 : UInt8
  m1 : UInt8
  m2 : UInt8
  m3 : UInt8
  deriving DecidableEq

namespace Mask

def byte (m : Mask) (c : Nat) : UInt8 :=
  match c % 4 with
  | 0 => m.m0
  | 1 => m.m1
  | 2 => m.m2
  | _ => m.m3

def bytes (m : Mask) : Bytes := [m.m0, m.m1, m.m2, m.m3]

/-- Every byte, combined with the byte of the mask at its position. -/
def apply (m : Mask) (payload : Bytes) : Bytes := payload.mapIdx fun c b => b ^^^ m.byte c

@[simp] theorem length_bytes (m : Mask) : m.bytes.length = 4 := rfl

@[simp] theorem length_apply (m : Mask) (payload : Bytes) :
    (m.apply payload).length = payload.length := by
  simp [apply]

/-- **Masking twice changes nothing.** -/
@[simp] theorem apply_apply (m : Mask) (payload : Bytes) : m.apply (m.apply payload) = payload := by
  refine List.ext_getElem (by simp) ?_
  intro c hc hc'
  simp only [apply, List.getElem_mapIdx]
  rw [UInt8.xor_assoc, UInt8.xor_self, UInt8.xor_zero]

end Mask

structure Frame where
  /-- The final flag, the reserved bits and the opcode. -/
  head : UInt8
  /-- A client masks what it sends. -/
  mask : Option Mask
  payload : Bytes
  deriving DecidableEq

/-- The three forms of a length: seven bits, and the bytes that follow them. -/
inductive LengthField (length : Nat) : Nat → Bytes → Prop where
  | seven (h : length < 126) : LengthField length length []
  | two (h : length < 256 ^ 2) : LengthField length 126 (bigEndian 2 length)
  | eight (h : length < 256 ^ 8) : LengthField length 127 (bigEndian 8 length)

/-- The shortest form. -/
def lengthField (length : Nat) : Nat × Bytes :=
  if length < 126 then (length, [])
  else if length ≤ 0xffff then (126, bigEndian 2 length)
  else (127, bigEndian 8 length)

theorem lengthField_form {length : Nat} (h : length < 256 ^ 8) :
    LengthField length (lengthField length).1 (lengthField length).2 := by
  unfold lengthField
  split
  · rename_i hshort
    exact LengthField.seven hshort
  · split
    · rename_i hmiddle
      exact LengthField.two (by omega)
    · exact LengthField.eight h

namespace Frame

/-- The mask and what is masked with it. -/
def content (f : Frame) : Bytes :=
  match f.mask with
  | none => f.payload
  | some m => m.bytes ++ m.apply f.payload

def maskBit (f : Frame) : Nat := if f.mask.isSome then 128 else 0

def encode (f : Frame) : Bytes :=
  f.head :: UInt8.ofNat (f.maskBit + (lengthField f.payload.length).1)
    :: ((lengthField f.payload.length).2 ++ f.content)

end Frame

/-! ## Reading -/

/-- The length, from its seven bits and what follows them; and what follows it. -/
def readLength (seven : Nat) (s : Bytes) : Option (Nat × Bytes) :=
  if seven = 126 then
    if s.length < 2 then none else some (ofBigEndian (s.take 2), s.drop 2)
  else if seven = 127 then
    if s.length < 8 then none else some (ofBigEndian (s.take 8), s.drop 8)
  else some (seven, s)

/-- A mask, if there is one. -/
def readMask (masked : Bool) (s : Bytes) : Option (Option Mask × Bytes) :=
  if masked then
    match s with
    | m0 :: m1 :: m2 :: m3 :: rest => some (some ⟨m0, m1, m2, m3⟩, rest)
    | _ => none
  else some (none, s)

/-- One frame, and what follows it; `none` where the stream ends too early. -/
def decode : Bytes → Option (Frame × Bytes)
  | head :: second :: s => do
      let (length, s) ← readLength (second.toNat % 128) s
      let (mask, s) ← readMask (128 ≤ second.toNat) s
      if s.length < length then none
      else
        let payload := match mask with
          | none => s.take length
          | some m => m.apply (s.take length)
        some (⟨head, mask, payload⟩, s.drop length)
  | _ => none

/-- Frame after frame, until the stream ends. -/
def decodeAll : Nat → Bytes → List Frame × Bytes
  | 0, s => ([], s)
  | fuel + 1, s =>
      match decode s with
      | none => ([], s)
      | some (f, s') =>
          let (fs, rest) := decodeAll fuel s'
          (f :: fs, rest)

/-- The frames a stream begins with, and what is left over. -/
def frames (s : Bytes) : List Frame × Bytes := decodeAll s.length s

theorem readLength_form {length seven : Nat} {ext : Bytes} (h : LengthField length seven ext)
    (s : Bytes) : readLength seven (ext ++ s) = some (length, s) := by
  cases h with
  | seven h =>
      rw [readLength, if_neg (by omega), if_neg (by omega)]
      rfl
  | two h =>
      have hlen : ¬ (bigEndian 2 length ++ s).length < 2 := by
        rw [List.length_append, length_bigEndian]
        omega
      rw [readLength, if_pos rfl, if_neg hlen]
      rw [List.take_left' (length_bigEndian 2 length), List.drop_left' (length_bigEndian 2 length),
        ofBigEndian_bigEndian_of_lt h]
  | eight h =>
      have hlen : ¬ (bigEndian 8 length ++ s).length < 8 := by
        rw [List.length_append, length_bigEndian]
        omega
      rw [readLength, if_neg (by decide), if_pos rfl, if_neg hlen]
      rw [List.take_left' (length_bigEndian 8 length), List.drop_left' (length_bigEndian 8 length),
        ofBigEndian_bigEndian_of_lt h]

/-- The seven bits are seven. -/
theorem LengthField.lt {length seven : Nat} {ext : Bytes} (h : LengthField length seven ext) :
    seven < 128 := by
  cases h with
  | seven h => omega
  | two h => omega
  | eight h => omega

theorem toNat_second {f : Frame} {seven : Nat} (h : seven < 128) :
    (UInt8.ofNat (f.maskBit + seven)).toNat = f.maskBit + seven := by
  have hbit : f.maskBit ≤ 128 := by
    unfold Frame.maskBit
    split <;> omega
  rw [UInt8.toNat_ofNat']
  omega

/-- **A frame that was written is read back**, and nothing behind it is touched. -/
theorem decode_encode {f : Frame} (h : f.payload.length < 256 ^ 8) (rest : Bytes) :
    decode (f.encode ++ rest) = some (f, rest) := by
  obtain ⟨head, mask, payload⟩ := f
  have hform : LengthField payload.length _ _ := lengthField_form h
  have hseven : (lengthField payload.length).1 < 128 := hform.lt
  have hlength := fun s => readLength_form hform s
  have hsecond := toNat_second (f := ⟨head, mask, payload⟩) hseven
  unfold Frame.encode
  simp only [List.cons_append, List.append_assoc, decode, hsecond]
  cases mask with
  | none =>
      have hmod : (lengthField payload.length).1 % 128 = (lengthField payload.length).1 :=
        Nat.mod_eq_of_lt hseven
      have hunmasked : ¬ 128 ≤ (lengthField payload.length).1 := by omega
      simp only [Frame.maskBit, Option.isSome_none, Bool.false_eq_true, if_false, Nat.zero_add,
        hmod, hlength, Frame.content, Option.bind_eq_bind, Option.bind_some, readMask,
        decide_eq_true_eq, if_neg hunmasked, List.length_append]
      rw [if_neg (by omega), List.take_left, List.drop_left]
  | some m =>
      have hmod :
          (128 + (lengthField payload.length).1) % 128 = (lengthField payload.length).1 := by
        omega
      have hmasked : 128 ≤ 128 + (lengthField payload.length).1 := by omega
      have happly : (m.apply payload).length = payload.length := m.length_apply payload
      simp only [Frame.maskBit, Option.isSome_some, if_true, hmod, hlength, Frame.content,
        Option.bind_eq_bind, Option.bind_some, readMask, decide_eq_true_eq, if_pos hmasked,
        Mask.bytes, List.cons_append, List.nil_append, List.length_append]
      rw [if_neg (by omega), List.take_left' happly, List.drop_left' happly, m.apply_apply]

theorem encode_ne_nil (f : Frame) : f.encode ≠ [] := by simp [Frame.encode]

theorem decodeAll_encode {fs : List Frame} (h : ∀ f ∈ fs, f.payload.length < 256 ^ 8)
    {rest : Bytes} (hrest : decode rest = none) :
    ∀ {fuel : Nat}, fs.length ≤ fuel →
      decodeAll fuel (fs.flatMap Frame.encode ++ rest) = (fs, rest) := by
  induction fs with
  | nil =>
      intro fuel _
      cases fuel with
      | zero => rfl
      | succ fuel =>
          rw [List.flatMap_nil, List.nil_append, decodeAll, hrest]
  | cons f fs ih =>
      intro fuel hfuel
      cases fuel with
      | zero => exact absurd hfuel (by simp)
      | succ fuel =>
          have hf : f.payload.length < 256 ^ 8 := h f (List.mem_cons_self ..)
          have hfs : ∀ g ∈ fs, g.payload.length < 256 ^ 8 :=
            fun g hg => h g (List.mem_cons_of_mem f hg)
          have hrec := ih hfs (Nat.le_of_succ_le_succ hfuel)
          rw [List.flatMap_cons, List.append_assoc, decodeAll, decode_encode hf]
          simp only [hrec]

/--
**A stream of frames is cut into these frames**, and what does not make up a whole
frame is left over.
-/
theorem frames_encode {fs : List Frame} (h : ∀ f ∈ fs, f.payload.length < 256 ^ 8)
    {rest : Bytes} (hrest : decode rest = none) :
    frames (fs.flatMap Frame.encode ++ rest) = (fs, rest) := by
  refine decodeAll_encode h hrest ?_
  have hone : ∀ f ∈ fs, 1 ≤ f.encode.length := by
    intro f _
    exact List.length_pos_iff.mpr (encode_ne_nil f)
  have hlen : fs.length ≤ (fs.flatMap Frame.encode).length := by
    clear h
    induction fs with
    | nil => simp
    | cons f fs ih =>
        have hf := hone f (List.mem_cons_self ..)
        have hfs := ih fun g hg => hone g (List.mem_cons_of_mem f hg)
        simp only [List.length_cons, List.flatMap_cons, List.length_append]
        omega
  rw [List.length_append]
  omega

@[simp] theorem decode_nil : decode [] = none := rfl

/-! ## A stream that has not come in whole -/

theorem readLength_append {seven length : Nat} {s rest : Bytes}
    (h : readLength seven s = some (length, rest)) (more : Bytes) :
    readLength seven (s ++ more) = some (length, rest ++ more) := by
  have htake : ∀ {n : Nat}, ¬ s.length < n →
      (s ++ more).take n = s.take n ∧ (s ++ more).drop n = s.drop n ++ more := by
    intro n hn
    exact ⟨List.take_append_of_le_length (by omega), List.drop_append_of_le_length (by omega)⟩
  unfold readLength at h ⊢
  split at h
  · split at h
    · exact absurd h (by simp)
    · rename_i hseven hlen
      obtain ⟨rfl, rfl⟩ := Prod.mk.inj (Option.some.inj h)
      rw [if_pos hseven, if_neg (by rw [List.length_append]; omega), (htake hlen).1, (htake hlen).2]
  · split at h
    · split at h
      · exact absurd h (by simp)
      · rename_i hseven height hlen
        obtain ⟨rfl, rfl⟩ := Prod.mk.inj (Option.some.inj h)
        rw [if_neg hseven, if_pos height, if_neg (by rw [List.length_append]; omega),
          (htake hlen).1, (htake hlen).2]
    · rename_i hseven height
      obtain ⟨rfl, rfl⟩ := Prod.mk.inj (Option.some.inj h)
      rw [if_neg hseven, if_neg height]

theorem readMask_append {masked : Bool} {mask : Option Mask} {s rest : Bytes}
    (h : readMask masked s = some (mask, rest)) (more : Bytes) :
    readMask masked (s ++ more) = some (mask, rest ++ more) := by
  unfold readMask at h ⊢
  split at h
  · rename_i hmasked
    split at h
    · obtain ⟨rfl, rfl⟩ := Prod.mk.inj (Option.some.inj h)
      rw [if_pos hmasked]
      rfl
    · exact absurd h (by simp)
  · rename_i hmasked
    obtain ⟨rfl, rfl⟩ := Prod.mk.inj (Option.some.inj h)
    rw [if_neg hmasked]

/-- What comes in later does not change a frame that is complete. -/
theorem decode_append {s rest : Bytes} {f : Frame} (h : decode s = some (f, rest))
    (more : Bytes) : decode (s ++ more) = some (f, rest ++ more) := by
  match s, h with
  | head :: second :: s, h =>
      simp only [decode, Option.bind_eq_bind, Option.bind_eq_some_iff] at h
      obtain ⟨⟨length, s1⟩, hlength, ⟨mask, s2⟩, hmask, h⟩ := h
      dsimp only at h hmask
      split at h
      · exact absurd h (by simp)
      · rename_i hlen
        obtain ⟨rfl, rfl⟩ := Prod.mk.inj (Option.some.inj h)
        have htake : (s2 ++ more).take length = s2.take length :=
          List.take_append_of_le_length (by omega)
        have hdrop : (s2 ++ more).drop length = s2.drop length ++ more :=
          List.drop_append_of_le_length (by omega)
        simp only [List.cons_append, decode, readLength_append hlength, readMask_append hmask,
          Option.bind_eq_bind, Option.bind_some, htake, hdrop]
        rw [if_neg (by rw [List.length_append]; omega)]

/-- A beginning of a frame is no frame. -/
theorem decode_of_prefix {f : Frame} (hf : f.payload.length < 256 ^ 8) {s : Bytes}
    (hs : s <+: f.encode) (hne : s ≠ f.encode) : decode s = none := by
  cases hdecode : decode s with
  | none => rfl
  | some result =>
      obtain ⟨g, rest⟩ := result
      obtain ⟨more, hmore⟩ := hs
      have hwhole := decode_append hdecode more
      have hencode := decode_encode hf []
      rw [List.append_nil, ← hmore, hwhole] at hencode
      obtain ⟨_, hrest⟩ := Prod.mk.inj (Option.some.inj hencode)
      obtain ⟨_, rfl⟩ := List.append_eq_nil_iff.mp hrest
      rw [List.append_nil] at hmore
      exact absurd hmore hne

/-- A beginning of a stream of frames is a stream of the first of them, and a rest. -/
theorem split_of_prefix {fs : List Frame} (h : ∀ f ∈ fs, f.payload.length < 256 ^ 8) :
    ∀ {s : Bytes}, s <+: fs.flatMap Frame.encode →
      ∃ gs rest, s = gs.flatMap Frame.encode ++ rest ∧ gs <+: fs ∧ decode rest = none := by
  induction fs with
  | nil =>
      intro s hs
      obtain rfl := List.prefix_nil.mp hs
      exact ⟨[], [], rfl, List.prefix_refl _, rfl⟩
  | cons f fs ih =>
      intro s hs
      rw [List.flatMap_cons] at hs
      have hf : f.payload.length < 256 ^ 8 := h f (List.mem_cons_self ..)
      by_cases hwhole : f.encode <+: s
      · obtain ⟨s', rfl⟩ := hwhole
        obtain ⟨gs, rest, rfl, hgs, hrest⟩ :=
          ih (fun g hg => h g (List.mem_cons_of_mem f hg)) ((List.prefix_append_right_inj _).mp hs)
        exact ⟨f :: gs, rest, by simp, List.cons_prefix_cons.mpr ⟨rfl, hgs⟩, hrest⟩
      · have hbegin : s <+: f.encode :=
          (List.prefix_or_prefix_of_prefix hs (List.prefix_append _ _)).resolve_right hwhole
        have hne : s ≠ f.encode := by
          rintro rfl
          exact hwhole (List.prefix_refl _)
        exact ⟨[], s, rfl, List.nil_prefix, decode_of_prefix hf hbegin hne⟩

/-- **Of a stream that is still coming in, the first frames are read**, and no others. -/
theorem frames_of_prefix {fs : List Frame} (h : ∀ f ∈ fs, f.payload.length < 256 ^ 8) {s : Bytes}
    (hs : s <+: fs.flatMap Frame.encode) : (frames s).1 <+: fs := by
  obtain ⟨gs, rest, rfl, hgs, hrest⟩ := split_of_prefix h hs
  rw [frames_encode (fun g hg => h g (hgs.subset hg)) hrest]
  exact hgs

theorem decodeAll_mono {s t : Bytes} (h : s <+: t) : ∀ {fuel more : Nat}, fuel ≤ more →
    (decodeAll fuel s).1 <+: (decodeAll more t).1 := by
  intro fuel
  induction fuel generalizing s t with
  | zero => exact fun _ => List.nil_prefix
  | succ fuel ih =>
      intro more hmore
      obtain ⟨more, rfl⟩ : ∃ n, more = n + 1 := ⟨more - 1, by omega⟩
      rw [decodeAll]
      cases hdecode : decode s with
      | none => exact List.nil_prefix
      | some result =>
          obtain ⟨f, rest⟩ := result
          obtain ⟨late, rfl⟩ := h
          rw [decodeAll, decode_append hdecode late]
          have hrest := ih (List.prefix_append rest late) (Nat.le_of_succ_le_succ hmore)
          exact List.cons_prefix_cons.mpr ⟨rfl, hrest⟩

/-- **What has been read stays read**, however much comes in after it. -/
theorem frames_mono {s t : Bytes} (h : s <+: t) : (frames s).1 <+: (frames t).1 :=
  decodeAll_mono h h.length_le

end WebSocket
