import MobaDisplay.Proof.RequestMessage
import MobaDisplay.Web.Session

/-!
# A request is read as it was sent

`Underway` says what a session has read of a request and what it still has to read, at
every place where the session waits. Each completed read keeps it, whatever the socket
gives beyond the delimiter (`underway_handle`), and while the request is not complete some
read can complete (`underway_progress`). So a request is handed to `find_resource` with
its content, once, however it is cut on its way.
-/

namespace MobaDisplay

open Cxx Streambuf Transition

/-! ## The end of a header -/

namespace RequestMessage

/-- The request line, without its line end. -/
def line (r : RequestMessage) : Bytes :=
  r.method ++ blank :: (r.target ++ blank :: (utf8 "HTTP/" ++ r.version))

/-- The line of a field, without its line end. -/
def fieldText (f : Bytes × Bytes) : Bytes := f.1 ++ colon :: blank :: f.2

theorem text_eq (r : RequestMessage) :
    r.text = unlines (r.line :: r.header.map fieldText) ++ crlf := by
  have hcrlf : utf8 "\r\n" = crlf := by decide +kernel
  have hsep : utf8 ": " = [colon, blank] := by decide +kernel
  have hfields : r.header.flatMap writeField = unlines (r.header.map fieldText) := by
    rw [unlines, List.flatMap_map]
    congr 1
    funext f
    simp [writeField, fieldText, hcrlf, hsep]
  have hcons : unlines (r.line :: r.header.map fieldText)
      = r.line ++ crlf ++ unlines (r.header.map fieldText) := by
    simp [unlines]
  rw [hcons, text, hfields, hcrlf]
  simp [line]

theorem headerLine_line {r : RequestMessage} (h : Writable r) : HeaderLine r.line := by
  have hhttp : lineFeed ∉ utf8 "HTTP/" := by decide +kernel
  refine ⟨?_, by simp [line]⟩
  simp only [line, List.mem_append, List.mem_cons, not_or]
  exact ⟨h.method.2, by decide, (notMem_target h).2, by decide, hhttp, h.version⟩

theorem headerLine_fieldText {f : Bytes × Bytes} (h : HttpHeader.Writable f) :
    HeaderLine (fieldText f) := by
  refine ⟨?_, by simp [fieldText]⟩
  simp only [fieldText, List.mem_append, List.mem_cons, not_or]
  exact ⟨h.line, by decide, by decide, h.value⟩

/-- The delimiter of `read` is found where the header ends. -/
theorem indexOf_text {r : RequestMessage} (h : Writable r) (body : Bytes) :
    indexOf (crlf ++ crlf) (r.text ++ body) = some (r.text.length - 4) := by
  have hlines : ∀ line ∈ r.line :: r.header.map fieldText, HeaderLine line := by
    intro line hline
    rcases List.mem_cons.mp hline with rfl | hline
    · exact headerLine_line h
    · obtain ⟨f, hf, rfl⟩ := List.mem_map.mp hline
      exact headerLine_fieldText (h.header f hf)
  have hfound := indexOf_blankLine (by simp) hlines body
  rw [text_eq, List.append_assoc, hfound, List.length_append]
  rfl

theorem text_length (r : RequestMessage) : 4 ≤ r.text.length := by
  simp only [text_eq, unlines, List.flatMap_cons, List.length_append, crlf, List.length_cons]
  omega

end RequestMessage

/-- A buffer with the delimiter in it holds the header, and the beginning of what follows. -/
theorem header_of_found {r : RequestMessage} (h : r.Writable) {body p rest : Bytes}
    (hsplit : p ++ rest = r.text ++ body) (hfound : (indexOf (crlf ++ crlf) p).isSome = true) :
    ∃ p', p = r.text ++ p' ∧ p' ++ rest = body ∧ indexOf (crlf ++ crlf) p
      = some (r.text.length - 4) := by
  -- the delimiter stands nowhere before the end of the header
  obtain ⟨hindex, hle⟩ := indexOf_beginning (r.indexOf_text h body) hsplit hfound
  have hfour := r.text_length
  have hlen : r.text.length ≤ p.length := by
    simp only [crlf, List.length_append, List.length_cons, List.length_nil] at hle
    omega
  obtain ⟨p', rfl⟩ : r.text <+: p :=
    List.prefix_of_prefix_length_le ⟨body, hsplit.symm⟩ (List.prefix_append p rest) hlen
  rw [List.append_assoc] at hsplit
  exact ⟨p', rfl, List.append_cancel_left hsplit, hindex⟩

/-- And so it is with the line of a chunk size. -/
theorem line_of_found {line tail p rest : Bytes} (h : lineFeed ∉ line)
    (hsplit : p ++ rest = line ++ (crlf ++ tail)) (hfound : (indexOf crlf p).isSome = true) :
    ∃ p', p = line ++ (crlf ++ p') ∧ p' ++ rest = tail ∧ indexOf crlf p = some line.length := by
  obtain ⟨hindex, hle⟩ := indexOf_beginning (indexOf_crlf h tail) hsplit hfound
  have hwhole : line ++ (crlf ++ tail) = (line ++ crlf) ++ tail := by simp
  rw [hwhole] at hsplit
  obtain ⟨p', rfl⟩ : line ++ crlf <+: p :=
    List.prefix_of_prefix_length_le ⟨tail, hsplit.symm⟩ (List.prefix_append p rest)
      (by simpa using hle)
  rw [List.append_assoc] at hsplit
  exact ⟨p', by simp, List.append_cancel_left hsplit, hindex⟩

/-! ## What follows a header -/

/-- The values of the fields of one name. -/
def fieldValues (header : Header) (name : Bytes) : List Bytes :=
  (header.filter fun f => caseInsensitiveEqual f.1 name).map Prod.snd

theorem Multimap.find_of_nil (m : Multimap) {header : Header} {name : Bytes}
    (h : fieldValues header name = []) : m.find header name = none := by
  have hperm := m.perm header name
  rw [← fieldValues, h] at hperm
  rw [find, hperm.eq_nil]
  rfl

theorem Multimap.find_of_singleton (m : Multimap) {header : Header} {name value : Bytes}
    (h : fieldValues header name = [value]) : m.find header name = some value := by
  have hperm := m.perm header name
  rw [← fieldValues, h] at hperm
  rw [find, hperm.eq_singleton]
  rfl

/-- A piece of content with its size in front, in up to sixteen hexadecimal digits. -/
structure Chunk where
  digits : Bytes
  data : Bytes
  nonempty : data ≠ []
  hex : ∀ b ∈ digits, isxdigit b = true
  short : digits.length ≤ 16
  value : hexDigitsValue digits = data.length

/-- Chunks, the chunk of size zero and the line end behind it. -/
def chunksText : List Chunk → Bytes
  | [] => 48 :: (crlf ++ crlf)
  | c :: cs => c.digits ++ (crlf ++ (c.data ++ (crlf ++ chunksText cs)))

def chunksData (chunks : List Chunk) : Bytes := chunks.flatMap Chunk.data

/--
How a content is sent, with the line end the server does not wait for: there is none,
its length is in the header, or it comes in chunks.
-/
inductive Framing (header : Header) : (content body trailer : Bytes) → Prop where
  | none (length : fieldValues header (utf8 "Content-Length") = [])
      (encoding : fieldValues header (utf8 "Transfer-Encoding") = []) : Framing header [] [] []
  | length (content : Bytes)
      (length : fieldValues header (utf8 "Content-Length") = [natDigits content.length]) :
      Framing header content content []
  | chunked (chunks : List Chunk) (length : fieldValues header (utf8 "Content-Length") = [])
      (encoding : fieldValues header (utf8 "Transfer-Encoding") = [utf8 "chunked"]) :
      Framing header (chunksData chunks) (chunksText chunks) crlf

/-- A request the server has room for. -/
structure Sendable (server : HttpServer) (m : RequestMessage) (content : Bytes) : Prop where
  writable : m.Writable
  header : m.text.length ≤ server.maxRequestStreambufSize
  fits : content.length ≤ server.maxRequestStreambufSize
  /-- Two line ends fit into a `std::size_t` as well. -/
  small : content.length + 2 < 2 ^ 64

/-! ## One read after the other -/

namespace HttpConnection

/-- A session with all of the request in it. -/
def found (server : HttpServer) (m : RequestMessage) (content : Bytes) (log : List HttpEffect) :
    HttpConnection :=
  findResource server ⟨.ended, log, false⟩ m content

theorem findResource_eq (server : HttpServer) (s : Session) (m : RequestMessage)
    (content : Bytes) (log : List HttpEffect) :
    findResource server ⟨s, log, false⟩ m content = found server m content log := rfl

/-- A session that has read some of a request, and the rest of it. -/
inductive Underway (server : HttpServer) (m : RequestMessage) (content trailer : Bytes)
    (log : List HttpEffect) : HttpConnection → Bytes → Prop where
  | header {body : Bytes} (framing : Framing m.header content body trailer) :
      Underway server m content trailer log ⟨.header [], log, false⟩ (m.text ++ body)
  | content {streambuf rest : Bytes} (split : content = streambuf ++ rest) :
      Underway server m content trailer log ⟨.content m streambuf rest.length, log, false⟩ rest
  | chunkSize {streambuf buffer rest : Bytes} {chunks : List Chunk} {maxSize : Nat}
      (htrailer : trailer = crlf) (split : content = streambuf ++ chunksData chunks)
      (text : buffer ++ rest = chunksText chunks) (room : 18 ≤ maxSize) :
      Underway server m content trailer log ⟨.chunkSize m streambuf buffer maxSize, log, false⟩ rest
  | chunk {streambuf data : Bytes} {chunks : List Chunk} {maxSize : Nat}
      (htrailer : trailer = crlf) (split : content = (streambuf ++ data) ++ chunksData chunks)
      (room : 18 ≤ maxSize) :
      Underway server m content trailer log ⟨.chunk m streambuf [] maxSize data.length, log, false⟩
        (data ++ (crlf ++ chunksText chunks))
  | chunkEnd (lineEnd : Bytes) {streambuf : Bytes} {chunks : List Chunk} {maxSize : Nat}
      (htrailer : trailer = crlf) (split : content = streambuf ++ chunksData chunks)
      (room : 18 ≤ maxSize) :
      Underway server m content trailer log
        ⟨.chunkEnd m streambuf [] maxSize lineEnd.length, log, false⟩
        (lineEnd ++ chunksText chunks)
  | done {rest : Bytes} (suffix : rest <:+ trailer) :
      Underway server m content trailer log (found server m content log) rest

variable {server : HttpServer} {m : RequestMessage} {content trailer : Bytes}
  {log : List HttpEffect}

theorem wait_found : wait server (found server m content log).session = none := by
  unfold found findResource
  split
  · rfl
  · split
    · rfl
    · rfl

theorem found_terminated : (found server m content log).terminated = false := by
  unfold found findResource
  split
  · rfl
  · split
    · rfl
    · rfl

/-- The content of a plain request, of which `p` came with the header. -/
theorem underway_readContent {s : Session} {body p rest : Bytes}
    (h : Sendable server m content) (framing : Framing m.header content body trailer)
    (hbody : p ++ rest = body) :
    Underway server m content trailer log (readContent server ⟨s, log, false⟩ m p p.length)
      rest := by
  unfold readContent
  cases framing with
  | none hlength hencoding =>
      obtain ⟨rfl, rfl⟩ := List.append_eq_nil_iff.mp hbody
      rw [server.multimap.find_of_nil hlength, server.multimap.find_of_nil hencoding]
      exact .done (List.suffix_refl [])
  | length _ hlength =>
      have hsmall := h.small
      rw [server.multimap.find_of_singleton hlength]
      dsimp only
      rw [stoull_natDigits (by omega)]
      dsimp only
      rw [if_neg (by have hfits := h.fits; omega)]
      have hlen : p.length + rest.length = content.length := by
        rw [← hbody, List.length_append]
      split
      · have hmissing : content.length - p.length = rest.length := by omega
        rw [hmissing]
        exact .content hbody.symm
      · obtain rfl : rest = [] := List.length_eq_zero_iff.mp (by omega)
        rw [List.append_nil] at hbody
        subst hbody
        exact .done (List.suffix_refl [])
  | chunked chunks hlength hencoding =>
      rw [server.multimap.find_of_nil hlength, server.multimap.find_of_singleton hencoding]
      exact .chunkSize rfl (List.nil_append _).symm hbody (Nat.le_max_left _ _)

/-- The handler of `read`, whatever came with the delimiter. -/
theorem underway_handleHeader {s : Session} {body p rest : Bytes} (h : Sendable server m content)
    (framing : Framing m.header content body trailer) (hsplit : p ++ rest = m.text ++ body)
    (hfound : (indexOf (crlf ++ crlf) p).isSome = true) :
    Underway server m content trailer log (handleHeader server ⟨s, log, false⟩ p) rest := by
  obtain ⟨p', rfl, hbody, hindex⟩ := header_of_found h.writable hsplit hfound
  have hfour := m.text_length
  have hadditional : sizeSub (m.text ++ p').length (m.text.length - 4 + 4) = p'.length := by
    rw [List.length_append, sizeSub_of_le (by omega)]
    omega
  unfold handleHeader
  rw [hindex]
  dsimp only
  rw [RequestMessage.parse_text h.writable, hadditional]
  exact underway_readContent h framing hbody

/-- The size of a chunk, and its line. -/
theorem stoul16_chunk (c : Chunk) :
    stoul16 (c.digits ++ [carriageReturn]) = some c.data.length := by
  have hne : c.digits ≠ [] := by
    intro hnil
    have hvalue := c.value
    rw [hnil] at hvalue
    exact c.nonempty (List.length_eq_zero_iff.mp hvalue.symm)
  have hcr : ∀ b ∈ ([carriageReturn] : Bytes).head?, isxdigit b = false ∧ b ≠ 120 ∧ b ≠ 88 := by
    rintro b ⟨⟩
    decide
  rw [stoul16_digits hne c.hex c.short hcr, c.value]

theorem lineFeed_notMem_digits (c : Chunk) : lineFeed ∉ c.digits := by
  intro hmem
  exact absurd (c.hex lineFeed hmem) (by decide)

/-- All of a chunk is there, and of what follows it `e`: none, some or all of the line end. -/
theorem underway_lineEnd {s : Session} {streambuf e rest : Bytes} {chunks : List Chunk}
    {n maxSize : Nat} (htrailer : trailer = crlf)
    (hcontent : content = streambuf ++ chunksData chunks) (room : 18 ≤ maxSize)
    (hend : e ++ rest = crlf ++ chunksText chunks) :
    Underway server m content trailer log
      (if 2 + n > n + e.length then
        let missing := sizeSub (2 + n) (n + e.length)
        let e := if missing = 1 then e.drop 1 else e
        { (⟨s, log, false⟩ : HttpConnection) with
          session := .chunkEnd m streambuf e maxSize missing }
      else
        { (⟨s, log, false⟩ : HttpConnection) with
          session := .chunkSize m streambuf (e.drop 2) maxSize })
      rest := by
  rcases e with _ | ⟨x, _ | ⟨y, e⟩⟩
  · have htwo : sizeSub (2 + n) (n + ([] : Bytes).length) = 2 := by
      rw [List.length_nil, sizeSub_of_le (by omega)]
      omega
    rw [if_pos (by simp)]
    dsimp only
    rw [htwo, if_neg (by omega)]
    rw [List.nil_append] at hend
    rw [hend]
    exact .chunkEnd crlf htrailer hcontent room
  · -- the carriage return is dropped, the line feed is read with the next read
    have hone : sizeSub (2 + n) (n + [x].length) = 1 := by
      rw [List.length_singleton, sizeSub_of_le (by omega)]
      omega
    rw [if_pos (by rw [List.length_singleton]; omega)]
    dsimp only
    rw [hone, if_pos rfl]
    obtain ⟨-, htail⟩ := List.cons.inj hend
    obtain rfl : rest = [lineFeed] ++ chunksText chunks := htail
    exact .chunkEnd [lineFeed] htrailer hcontent room
  · rw [if_neg (by simp only [List.length_cons]; omega)]
    obtain ⟨-, htail⟩ := List.cons.inj hend
    obtain ⟨-, htail⟩ := List.cons.inj htail
    exact .chunkSize htrailer hcontent htail room

/-- The handler of a chunk that is not the last one, by how much of it is there. -/
theorem underway_chunk {s : Session} {streambuf b rest : Bytes} {c : Chunk} {chunks : List Chunk}
    {maxSize : Nat} (h : Sendable server m content) (htrailer : trailer = crlf)
    (hcontent : content = streambuf ++ chunksData (c :: chunks)) (room : 18 ≤ maxSize)
    (hsplit : b ++ rest = chunksText (c :: chunks))
    (hfound : (indexOf crlf b).isSome = true) :
    Underway server m content trailer log
      (handleChunkSize server ⟨s, log, false⟩ m streambuf b maxSize) rest := by
  have hline := lineFeed_notMem_digits c
  obtain ⟨b', rfl, hrest, hindex⟩ := line_of_found hline hsplit hfound
  have hget : getline (c.digits ++ (crlf ++ b')) = some (c.digits ++ [carriageReturn], b') := by
    have hlf : c.digits ++ (crlf ++ b') = (c.digits ++ [carriageReturn]) ++ lineFeed :: b' := by
      simp [crlf]
    rw [hlf]
    exact getline_line (lineFeed_notMem_append hline) b'
  have hpos : 0 < c.data.length := List.length_pos_iff.mpr c.nonempty
  have hfits := h.fits
  have hsmall := h.small
  have hlen : content.length = streambuf.length + c.data.length + (chunksData chunks).length := by
    rw [hcontent]
    simp only [chunksData, List.flatMap_cons, List.length_append]
    omega
  have hzero : sizeSub (c.digits.length + 2) ((c.digits ++ [carriageReturn]).length + 1) = 0 := by
    simp only [List.length_append, List.length_singleton]
    rw [sizeSub_of_le (by omega)]
    omega
  have hsum : sizeT (c.data.length + streambuf.length) = c.data.length + streambuf.length :=
    Nat.mod_eq_of_lt (by omega)
  have htwo : sizeT (2 + c.data.length) = 2 + c.data.length := Nat.mod_eq_of_lt (by omega)
  have hall : sizeSub b'.length 0 = b'.length := sizeSub_of_le (Nat.zero_le _)
  unfold handleChunkSize
  rw [hindex, hget]
  dsimp only
  rw [stoul16_chunk]
  dsimp only
  rw [if_neg (by omega), hsum, if_neg (by omega), hzero, hall, htwo]
  split
  · -- some of the chunk is still to come
    obtain ⟨d, hd⟩ : b' <+: c.data := List.prefix_of_prefix_length_le
      ⟨rest, hrest⟩ (List.prefix_append _ _) (by omega)
    have hd' : d ++ (crlf ++ chunksText chunks) = rest := by
      rw [← hd, List.append_assoc] at hrest
      exact (List.append_cancel_left hrest).symm
    have hmin : min c.data.length b'.length = b'.length := Nat.min_eq_right (by omega)
    have hmissing : c.data.length - b'.length = d.length := by
      rw [← hd, List.length_append]
      omega
    rw [hmin, List.take_length, List.drop_length, hmissing, ← hd']
    refine .chunk htrailer ?_ room
    rw [hcontent, chunksData, List.flatMap_cons, ← hd]
    simp [chunksData]
  · rename_i hmore
    obtain ⟨e, rfl⟩ : c.data <+: b' := List.prefix_of_prefix_length_le
      (List.prefix_append _ _) ⟨rest, hrest⟩ (by omega)
    rw [List.append_assoc] at hrest
    have hend : e ++ rest = crlf ++ chunksText chunks := List.append_cancel_left hrest
    have hmin : min c.data.length (c.data ++ e).length = c.data.length := by
      rw [List.length_append]
      omega
    have hdecoded : content = (streambuf ++ c.data) ++ chunksData chunks := by
      rw [hcontent, chunksData, List.flatMap_cons]
      simp [chunksData]
    rw [hmin, List.take_left, List.drop_left, List.length_append]
    exact underway_lineEnd (s := s) htrailer hdecoded room hend

/-- The handler of `read_chunked_transfer_encoded`. -/
theorem underway_handleChunkSize {s : Session} {streambuf b rest : Bytes} {chunks : List Chunk}
    {maxSize : Nat} (h : Sendable server m content) (htrailer : trailer = crlf)
    (hcontent : content = streambuf ++ chunksData chunks) (room : 18 ≤ maxSize)
    (hsplit : b ++ rest = chunksText chunks) (hfound : (indexOf crlf b).isSome = true) :
    Underway server m content trailer log
      (handleChunkSize server ⟨s, log, false⟩ m streambuf b maxSize) rest := by
  cases chunks with
  | cons c chunks => exact underway_chunk h htrailer hcontent room hsplit hfound
  | nil =>
      have hzero : chunksText [] = [48] ++ (crlf ++ crlf) := rfl
      rw [hzero] at hsplit
      obtain ⟨b', rfl, hrest, hindex⟩ := line_of_found (by decide) hsplit hfound
      have hget : getline ([48] ++ (crlf ++ b')) = some ([48, carriageReturn], b') :=
        getline_line (show lineFeed ∉ ([48, carriageReturn] : Bytes) by decide) b'
      have hsize : stoul16 [48, carriageReturn] = some 0 := by decide
      unfold handleChunkSize
      rw [hindex, hget]
      dsimp only
      rw [hsize]
      dsimp only
      rw [if_pos rfl, findResource_eq]
      have hall : content = streambuf := by simpa [chunksData] using hcontent
      rw [← hall]
      exact .done ⟨b', by rw [hrest, htrailer]⟩

/-- **Every completed read brings the session on**, and takes no byte that is not the request's. -/
theorem underway_handle {c : HttpConnection} {p rest : Bytes} {w : Wait}
    (h : Sendable server m content) (hway : Underway server m content trailer log c (p ++ rest))
    (hwait : wait server c.session = some w) (haccepts : w.accepts p = true) :
    Underway server m content trailer log (handle server c p) rest := by
  -- each constructor has its own form for the bytes that are left
  obtain ⟨all, hall⟩ : ∃ all, all = p ++ rest := ⟨_, rfl⟩
  rw [← hall] at hway
  cases hway with
  | header framing =>
      cases hwait
      have hfound := Wait.found_of_accepts haccepts
      rw [List.nil_append] at hfound
      exact underway_handleHeader h framing hall.symm hfound
  | content split =>
      cases hwait
      have hlen := Wait.length_of_accepts haccepts
      rw [hall, List.length_append] at hlen
      obtain rfl : rest = [] := List.length_eq_zero_iff.mp (by omega)
      rw [List.append_nil] at hall
      subst hall
      rw [split]
      exact .done List.nil_suffix
  | chunkSize htrailer split text room =>
      cases hwait
      rw [hall, ← List.append_assoc] at text
      exact underway_handleChunkSize h htrailer split room text (Wait.found_of_accepts haccepts)
  | chunk htrailer split room =>
      cases hwait
      obtain ⟨rfl, htail⟩ := List.append_inj hall (Wait.length_of_accepts haccepts).symm
      rw [← htail]
      exact .chunkEnd crlf htrailer split room
  | chunkEnd lineEnd htrailer split room =>
      cases hwait
      obtain ⟨rfl, htail⟩ := List.append_inj hall (Wait.length_of_accepts haccepts).symm
      exact .chunkSize htrailer split htail.symm room
  | done suffix =>
      rw [wait_found] at hwait
      cases hwait

/-- The position of the first line end of chunks leaves room for it. -/
theorem indexOf_chunksText (chunks : List Chunk) :
    ∃ i, indexOf crlf (chunksText chunks) = some i ∧ i + crlf.length ≤ 18 := by
  cases chunks with
  | nil => exact ⟨1, indexOf_crlf (show lineFeed ∉ ([48] : Bytes) by decide) crlf, by decide⟩
  | cons c chunks =>
      have hshort := c.short
      refine ⟨_, indexOf_crlf (lineFeed_notMem_digits c) _, ?_⟩
      simp only [crlf, List.length_cons, List.length_nil]
      omega

/-- **While a request is not complete**, some read can complete as soon as the rest is there. -/
theorem underway_progress {c : HttpConnection} {rest : Bytes} (h : Sendable server m content)
    (hway : Underway server m content trailer log c rest) :
    (c = found server m content log ∧ rest <:+ trailer)
      ∨ ∃ w n, wait server c.session = some w ∧ n ≤ rest.length
        ∧ w.accepts (rest.take n) = true := by
  -- what a read waits for is always part of what is still to come
  cases hway with
  | done suffix => exact .inl ⟨rfl, suffix⟩
  | header framing =>
      have hfour := m.text_length
      have hroom : m.text.length - 4 + (crlf ++ crlf).length ≤ server.maxRequestStreambufSize := by
        have hhead := h.header
        simp only [crlf, List.length_append, List.length_cons, List.length_nil]
        omega
      obtain ⟨n, hn, haccepts⟩ := Wait.accepts_of_found (List.nil_append _)
        (m.indexOf_text h.writable _) hroom
      exact .inr ⟨_, n, rfl, hn, haccepts⟩
  | content split => exact .inr ⟨_, rest.length, rfl, Nat.le_refl _, by simp [Wait.accepts]⟩
  | @chunkSize _ _ _ chunks _ htrailer split text room =>
      obtain ⟨i, hindex, hroom⟩ := indexOf_chunksText chunks
      obtain ⟨n, hn, haccepts⟩ := Wait.accepts_of_found text hindex (Nat.le_trans hroom room)
      exact .inr ⟨_, n, rfl, hn, haccepts⟩
  | @chunk _ data _ _ htrailer split room =>
      exact .inr ⟨_, data.length, rfl, by simp, by simp [Wait.accepts]⟩
  | chunkEnd lineEnd htrailer split room =>
      exact .inr ⟨_, lineEnd.length, rfl, by simp, by simp [Wait.accepts]⟩

theorem underway_start {body : Bytes} (framing : Framing m.header content body trailer) :
    Underway server m content trailer log ⟨.header [], log, false⟩ (m.text ++ body) :=
  .header framing

/-- While a request is being read nothing is logged. -/
theorem underway_log {c : HttpConnection} {rest : Bytes}
    (hway : Underway server m content trailer log c rest) :
    c = found server m content log ∨ (c.log = log ∧ c.terminated = false) := by
  cases hway with
  | done suffix => exact .inl rfl
  | _ => exact .inr ⟨rfl, rfl⟩

/-- A session that reads a request waits, or has found its resource. -/
theorem underway_wait {c : HttpConnection} {rest : Bytes}
    (hway : Underway server m content trailer log c rest) :
    (wait server c.session).isSome = true
      ∨ (c = found server m content log ∧ rest <:+ trailer) := by
  cases hway with
  | done suffix => exact .inr ⟨rfl, suffix⟩
  | _ => exact .inl rfl

end HttpConnection

namespace HttpLink

open HttpConnection

variable {server : HttpServer}

theorem complete_eq_some {x y : HttpLink} {n : Nat} :
    complete server x n = some y ↔ ∃ w, wait server x.connection.session = some w
      ∧ n ≤ x.received.length ∧ w.accepts (x.received.take n) = true
      ∧ y = ⟨handle server x.connection (x.received.take n), x.received.drop n⟩ := by
  unfold complete
  cases hwait : wait server x.connection.session with
  | none => simp
  | some w =>
      dsimp only
      by_cases hn : n ≤ x.received.length ∧ w.accepts (x.received.take n) = true
      · rw [if_pos hn]
        refine ⟨?_, ?_⟩
        · intro h
          exact ⟨w, rfl, hn.1, hn.2, (Option.some.inj h).symm⟩
        · rintro ⟨w', hw, -, -, rfl⟩
          rfl
      · rw [if_neg hn]
        refine ⟨fun h => absurd h (by simp), ?_⟩
        rintro ⟨w', hw, hle, haccepts, -⟩
        obtain rfl := Option.some.inj hw
        exact absurd ⟨hle, haccepts⟩ hn

theorem responded_eq_some {x y : HttpLink} (h : step server x .responded = some y) :
    ∃ m, x.connection.session = .responding m
      ∧ y = { x with connection := x.connection.responded server m } := by
  simp only [step] at h
  split at h
  · rename_i m hsession
    exact ⟨m, hsession, (Option.some.inj h).symm⟩
  · cases h

/-- What arrives in a step. -/
def Action.bytes : Action → Bytes
  | .arrive bytes => bytes
  | _ => []

/-- A step in which nothing goes wrong, and nothing is sent. -/
def Action.Calm : Action → Prop
  | .arrive _ => True
  | .complete _ => True
  | _ => False

/-- Whether there is anything left to read. -/
def Quiet (server : HttpServer) (x : HttpLink) : Prop := ∀ n, complete server x n = none

section Request

variable {m : RequestMessage} {content trailer : Bytes} {log : List HttpEffect}

/-- The request as it is on its way: in the session, in the socket and still to come. -/
def OnItsWay (server : HttpServer) (m : RequestMessage) (content trailer : Bytes)
    (log : List HttpEffect) (x : HttpLink) (later : Bytes) : Prop :=
  Underway server m content trailer log x.connection (x.received ++ later)

theorem onItsWay_step {x y : HttpLink} {a : Action} {later : Bytes}
    (h : Sendable server m content)
    (hx : OnItsWay server m content trailer log x (a.bytes ++ later)) (hcalm : a.Calm)
    (hstep : step server x a = some y) :
    OnItsWay server m content trailer log y later := by
  cases a with
  | arrive bytes =>
      cases hstep
      simpa [OnItsWay, Action.bytes] using hx
  | complete n =>
      obtain ⟨w, hwait, hn, haccepts, rfl⟩ := complete_eq_some.mp hstep
      refine underway_handle h ?_ hwait haccepts
      rw [← List.append_assoc, List.take_append_drop]
      exact hx
  | responded => exact hcalm.elim
  | fail ec => exact hcalm.elim
  | stop => exact hcalm.elim

/-- What one calm step keeps of a link and the bytes to come, a calm run keeps. -/
theorem calm_run {P : HttpLink → Bytes → Prop}
    (keep : ∀ x y a later, P x (Action.bytes a ++ later) → a.Calm → step server x a = some y →
      P y later) {as : List Action} :
    ∀ {x y : HttpLink} {later : Bytes}, P x (as.flatMap Action.bytes ++ later) →
      (∀ a ∈ as, a.Calm) → (system server).run x as = some y → P y later := by
  induction as with
  | nil =>
      intro x y later hx _ hrun
      obtain rfl := Option.some.inj hrun
      exact hx
  | cons a as ih =>
      intro x y later hx hcalm hrun
      rw [System.run_cons, Option.bind_eq_some_iff] at hrun
      obtain ⟨t, hstep, hrest⟩ := hrun
      rw [List.flatMap_cons, List.append_assoc] at hx
      exact ih (keep x t a _ hx (hcalm a (by simp)) hstep)
        (fun b hb => hcalm b (List.mem_cons_of_mem a hb)) hrest

theorem onItsWay_run {as : List Action} {x y : HttpLink} {later : Bytes}
    (h : Sendable server m content)
    (hx : OnItsWay server m content trailer log x (as.flatMap Action.bytes ++ later))
    (hcalm : ∀ a ∈ as, a.Calm) (hrun : (system server).run x as = some y) :
    OnItsWay server m content trailer log y later :=
  calm_run (P := OnItsWay server m content trailer log)
    (fun _ _ _ _ hx hcalm hstep => onItsWay_step h hx hcalm hstep) hx hcalm hrun

/-- With everything there and nothing to read, the request has been handed over. -/
theorem found_of_quiet {x : HttpLink} (h : Sendable server m content)
    (hx : OnItsWay server m content trailer log x []) (hquiet : Quiet server x) :
    x.connection = found server m content log ∧ x.received <:+ trailer := by
  rw [OnItsWay, List.append_nil] at hx
  rcases underway_progress h hx with hdone | ⟨w, n, hwait, hn, haccepts⟩
  · exact hdone
  · have hsome := complete_eq_some.mpr ⟨w, hwait, hn, haccepts, rfl⟩
    rw [hquiet n] at hsome
    cases hsome

/--
A request is handed to `find_resource` once, with the message and the content that were
sent, however it is cut into segments, whenever they are read and however much the reads
take beyond what they wait for; of its bytes none is left but, perhaps, the line end
behind the last chunk.
-/
theorem request_read {body : Bytes} {as : List Action} {x : HttpLink} {later : Bytes}
    (h : Sendable server m content) (framing : Framing m.header content body trailer)
    (hrun : (system server).run {} as = some x) (hcalm : ∀ a ∈ as, a.Calm)
    (harrived : as.flatMap Action.bytes ++ later = m.text ++ body) :
    (x.connection = found server m content []
        ∨ (x.connection.log = [] ∧ x.connection.terminated = false))
      ∧ (later = [] → Quiet server x →
          x.connection = found server m content [] ∧ x.received <:+ trailer) := by
  have hstart : OnItsWay server m content trailer [] {} (as.flatMap Action.bytes ++ later) := by
    rw [harrived]
    exact underway_start framing
  have hx := onItsWay_run h hstart hcalm hrun
  refine ⟨underway_log hx, ?_⟩
  rintro rfl hquiet
  exact found_of_quiet h hx hquiet

/-- A request with its content in chunks. -/
def chunkedRequest : RequestMessage :=
  ⟨utf8 "GET", utf8 "/", [], utf8 "1.1", [(utf8 "Transfer-Encoding", utf8 "chunked")]⟩

theorem chunkedRequest_sendable : Sendable httpServer chunkedRequest [97, 98, 99] := by
  refine ⟨⟨by decide +kernel, by decide +kernel, by decide +kernel, by decide +kernel, ?_⟩,
    by decide +kernel, by decide, by decide⟩
  intro f hf
  rw [List.mem_singleton.mp hf]
  exact ⟨by decide +kernel, by decide +kernel, by decide +kernel, by decide +kernel⟩

/-- The only chunk. -/
def threeBytes : Chunk :=
  ⟨[51], [97, 98, 99], by simp, by decide +kernel, by simp, by decide⟩

/-- The read of the header takes half of the chunk size as well. -/
def cutInChunk : List Action :=
  [.arrive (chunkedRequest.text ++ [51, 13]), .complete 48, .arrive [10, 97, 98], .complete 3,
    .arrive ([99] ++ crlf ++ [48] ++ crlf), .complete 1, .complete 2, .complete 3, .arrive crlf]

theorem request_read_chunked :
    ∃ x : HttpLink, (system httpServer).run {} cutInChunk = some x
      ∧ x.connection = found httpServer chunkedRequest [97, 98, 99] [] ∧ x.received <:+ crlf := by
  have hend : ((system httpServer).run {} cutInChunk).map
      (fun x => x.connection.session) = some (.responding chunkedRequest) := by
    decide +kernel
  obtain ⟨x, hrun, hx⟩ := Option.map_eq_some_iff.mp hend
  have hquiet : Quiet httpServer x := by
    intro n
    unfold complete
    rw [hx]
    rfl
  have framing : Framing chunkedRequest.header [97, 98, 99] (chunksText [threeBytes]) crlf :=
    .chunked [threeBytes] (by decide +kernel) (by decide +kernel)
  have harrived : cutInChunk.flatMap Action.bytes ++ []
      = chunkedRequest.text ++ chunksText [threeBytes] := by
    decide +kernel
  have hread := request_read chunkedRequest_sendable framing hrun
    (by simp [cutInChunk, Action.Calm]) harrived
  exact ⟨x, hrun, hread.2 rfl hquiet⟩

end Request

end HttpLink

end MobaDisplay
