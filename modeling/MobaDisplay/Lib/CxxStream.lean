import MobaDisplay.Lib.CxxString

/-!
# `std::ifstream` on a regular file that does not change

A stream is the bytes of its file, a position and whether it has failed. `read`
takes what is left, up to a limit; a stream that gives less than it was asked for
has failed, and gives nothing from then on.
-/

namespace Cxx

structure Ifstream where
  bytes : Bytes
  pos : Nat
  /-- `failbit`; a short read sets it. -/
  failed : Bool

namespace Ifstream

/-- `open(path, in | binary | ate)`, where it succeeds. -/
def openAte (bytes : Bytes) : Ifstream := ⟨bytes, bytes.length, false⟩

/-- `tellg()`; `-1` on a stream that has failed. -/
def tellg (f : Ifstream) : Int := if f.failed then -1 else f.pos

/-- `seekg(0, beg)`; it does nothing on a stream that has failed. -/
def rewind (f : Ifstream) : Ifstream := if f.failed then f else { f with pos := 0 }

/-- What `read(buffer, n)` puts into the buffer; its length is `gcount()`. -/
def chunk (f : Ifstream) (n : Nat) : Bytes := if f.failed then [] else (f.bytes.drop f.pos).take n

/-- The stream behind `read(buffer, n)`. -/
def skip (f : Ifstream) (n : Nat) : Ifstream :=
  { f with pos := f.pos + (f.chunk n).length, failed := decide ((f.chunk n).length < n) }

theorem tellg_openAte (bytes : Bytes) : (openAte bytes).tellg = bytes.length := rfl

theorem rewind_openAte (bytes : Bytes) : (openAte bytes).rewind = ⟨bytes, 0, false⟩ := rfl

@[simp] theorem skip_bytes (f : Ifstream) (n : Nat) : (f.skip n).bytes = f.bytes := rfl

theorem chunk_length_le (f : Ifstream) (n : Nat) : (f.chunk n).length ≤ n := by
  unfold chunk
  split
  · simp
  · exact List.length_take_le n _

/-- **A read moves the position over exactly what it gives.** -/
theorem take_skip (f : Ifstream) (n : Nat) :
    f.bytes.take (f.skip n).pos = f.bytes.take f.pos ++ f.chunk n := by
  unfold skip chunk
  split
  · simp
  · rw [List.take_add]
    congr 1
    rw [List.length_take, ← List.take_eq_take_min]

/-- The position stays inside the file. -/
theorem skip_pos_le {f : Ifstream} {n : Nat} (h : f.pos ≤ f.bytes.length) :
    (f.skip n).pos ≤ f.bytes.length := by
  have hlen : (f.chunk n).length ≤ f.bytes.length - f.pos := by
    unfold chunk
    split
    · simp
    · rw [List.length_take, List.length_drop]
      omega
  simp only [skip]
  omega

/-- A short read has reached the end. -/
theorem skip_pos_of_short {f : Ifstream} {n : Nat} (hf : f.failed = false)
    (h : f.pos ≤ f.bytes.length) (hshort : (f.chunk n).length ≠ n) :
    (f.skip n).pos = f.bytes.length := by
  simp only [skip, chunk, hf, Bool.false_eq_true, if_false, List.length_take, List.length_drop]
    at hshort ⊢
  omega

theorem skip_failed_of_full {f : Ifstream} {n : Nat} (hfull : (f.chunk n).length = n) :
    (f.skip n).failed = false := by
  simp [skip, hfull]

end Ifstream

end Cxx
