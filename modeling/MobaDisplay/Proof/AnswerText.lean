import MobaDisplay.Proof.Session

/-!
# Answers on one connection can be told apart

A client reads an answer with its header, takes as much content as the header says and
goes on with what is left. The answers of `Response::write` are read back that way one
after the other, whatever is in their contents: the texts of the resource loader repeat
the path of the request.
-/

namespace MobaDisplay

open Cxx

/-- An answer written with `write(status_code, content, header)`. -/
structure Written where
  status : StatusCode
  content : Bytes
  header : Header
  writable : ∀ f ∈ header, HttpHeader.Writable f
  /-- The header says nothing of the length. -/
  unsized : ∀ f ∈ header, caseInsensitiveEqual f.1 (utf8 "content-length") = false
    ∧ caseInsensitiveEqual f.1 (utf8 "transfer-encoding") = false
  small : content.length < 2 ^ 64

namespace Written

def text (a : Written) : Bytes := answerText a.status a.content a.header

/-- The header a client sees. -/
def sized (a : Written) : Header :=
  a.header ++ [(utf8 "Content-Length", natDigits a.content.length)]

end Written

/-- Status code, header and content of one answer. -/
abbrev Answered := Bytes × Header × Bytes

/-- How a client takes one answer from what it has received. -/
def readAnswer (stream : Bytes) : Option (Answered × Bytes) :=
  match ResponseMessage.parse stream with
  | .ok (some (_, status, header), rest) =>
      match (fieldValues header (utf8 "Content-Length")).head?.bind stoull with
      | some n =>
          if n ≤ rest.length then some ((status, header, rest.take n), rest.drop n) else none
      | none => none
  | _ => none

/-- And several, one after the other. -/
def readAnswers : Nat → Bytes → Option (List Answered × Bytes)
  | 0, stream => some ([], stream)
  | n + 1, stream => do
      let (first, rest) ← readAnswer stream
      let (answers, rest) ← readAnswers n rest
      return (first :: answers, rest)

/-! ## One answer -/

theorem caseInsensitiveEqual_lower {s t u : Bytes} (h : t.map tolower = u.map tolower) :
    caseInsensitiveEqual s t = caseInsensitiveEqual s u := by
  have hlen : t.length = u.length := by
    have hmap := congrArg List.length h
    simpa using hmap
  rw [caseInsensitiveEqual, caseInsensitiveEqual, h, hlen]

namespace Written

theorem text_eq (a : Written) :
    a.text = ResponseMessage.text a.status.text a.sized ++ a.content := by
  have hlength : (a.header.any fun f => caseInsensitiveEqual f.1 (utf8 "content-length"))
      = false := by
    rw [List.any_eq_false]
    intro f hf
    rw [(a.unsized f hf).1]
    exact Bool.false_ne_true
  have hchunked : (a.header.any fun f => caseInsensitiveEqual f.1 (utf8 "transfer-encoding")
      && caseInsensitiveEqual f.2 (utf8 "chunked")) = false := by
    rw [List.any_eq_false]
    intro f hf
    rw [(a.unsized f hf).2]
    exact Bool.false_ne_true
  have hend : utf8 "\r\n\r\n" = utf8 "\r\n" ++ utf8 "\r\n" := by decide +kernel
  have hname : utf8 "Content-Length: " = utf8 "Content-Length" ++ utf8 ": " := by decide +kernel
  have hdecimal : decimal (a.content.length : Int) = natDigits a.content.length := rfl
  simp [text, answerText, writeHeader, hlength, hchunked, hend, hname, hdecimal,
    ResponseMessage.text, sized, writeField]

theorem writable_sized (a : Written) : ∀ f ∈ a.sized, HttpHeader.Writable f := by
  intro f hf
  rcases List.mem_append.mp hf with hf | hf
  · exact a.writable f hf
  · rw [List.mem_singleton.mp hf]
    have hdigits := natDigits_isDigits a.content.length
    have hname : colon ∉ utf8 "Content-Length" ∧ lineFeed ∉ utf8 "Content-Length" := by
      decide +kernel
    refine ⟨hname.1, hname.2, ?_, ?_⟩
    · intro hmem
      exact absurd (hdigits.2 lineFeed hmem) (by decide)
    · intro hhead
      have hmem : blank ∈ natDigits a.content.length := List.mem_of_mem_head? hhead
      exact absurd (hdigits.2 blank hmem) (by decide)

theorem fieldValues_sized (a : Written) :
    fieldValues a.sized (utf8 "Content-Length") = [natDigits a.content.length] := by
  have hlower : (utf8 "Content-Length").map tolower = (utf8 "content-length").map tolower := by
    decide +kernel
  have hself : caseInsensitiveEqual (utf8 "Content-Length") (utf8 "Content-Length") = true := by
    decide +kernel
  have hnone : a.header.filter (fun f => caseInsensitiveEqual f.1 (utf8 "Content-Length"))
      = [] := by
    rw [List.filter_eq_nil_iff]
    intro f hf
    rw [caseInsensitiveEqual_lower hlower, (a.unsized f hf).1]
    exact Bool.false_ne_true
  rw [fieldValues, sized, List.filter_append, hnone]
  simp [hself]

theorem status_text (status : StatusCode) : status.text ≠ [] ∧ lineFeed ∉ status.text := by
  cases status with
  | successOk => exact ⟨by decide +kernel, by decide +kernel⟩
  | clientErrorBadRequest => exact ⟨by decide +kernel, by decide +kernel⟩

/-- What a client makes of the answer. -/
def answered (a : Written) : Answered := (a.status.text, a.sized, a.content)

theorem readAnswer_text (a : Written) (rest : Bytes) :
    readAnswer (a.text ++ rest) = some (a.answered, rest) := by
  have hparse := ResponseMessage.parse_text (status_text a.status).1 (status_text a.status).2
    a.writable_sized (a.content ++ rest)
  have hfirst : (fieldValues a.sized (utf8 "Content-Length")).head?.bind stoull
      = some a.content.length := by
    rw [a.fieldValues_sized]
    exact stoull_natDigits a.small
  unfold readAnswer
  rw [a.text_eq, List.append_assoc, hparse]
  dsimp only
  rw [hfirst]
  dsimp only
  rw [if_pos (by simp), List.take_left, List.drop_left]
  rfl

end Written

/--
**The answers on a connection are read back one after the other**, each with its status,
its header and its content; no content can be taken for the beginning of an answer.
-/
theorem readAnswers_texts (answers : List Written) (rest : Bytes) :
    readAnswers answers.length (answers.flatMap Written.text ++ rest)
      = some (answers.map Written.answered, rest) := by
  induction answers with
  | nil => rfl
  | cons a answers ih =>
      rw [List.flatMap_cons, List.append_assoc, List.length_cons, readAnswers,
        a.readAnswer_text]
      simp only [Option.bind_eq_bind, Option.bind_some, ih]
      rfl

end MobaDisplay
