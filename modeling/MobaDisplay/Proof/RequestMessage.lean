import MobaDisplay.Web.RequestMessage

/-!
# Messages are read back as they were written

A header that was written field by field is read back (`HttpHeader.parse_fields`), and
so are a request and a response with what follows them. The parsers stop at the blank
line and leave the content in the stream.

They accept more than that. `parse_exact` says which request lines they take, and that
no position they cut at is ever out of range.
-/

namespace MobaDisplay

open Cxx

/-! ## Header fields -/

namespace HttpHeader

theorem field_ok {line : Bytes} {paramEnd : Nat} : ∃ found, field line paramEnd = .ok found := by
  unfold field
  dsimp only
  by_cases hstart : valueStart line (paramEnd + 1) < line.length
  · rw [if_pos hstart, substr_of_le (Nat.zero_le _), substr_of_le (by omega)]
    exact ⟨_, rfl⟩
  · rw [if_neg hstart]
    exact ⟨_, rfl⟩

theorem parseLoop_ok (n : Nat) (stream : Bytes) : ∃ result, parseLoop n stream = .ok result := by
  induction n generalizing stream with
  | zero => exact ⟨_, rfl⟩
  | succ n ih =>
      unfold parseLoop
      split
      · exact ⟨_, rfl⟩
      · rename_i line rest hline
        split
        · exact ⟨_, rfl⟩
        · rename_i paramEnd _
          obtain ⟨found, hfound⟩ : ∃ found, field line paramEnd = .ok found := field_ok
          obtain ⟨result, hresult⟩ := ih rest
          rw [hfound, hresult]
          exact ⟨_, rfl⟩

/-- More rounds than there are bytes make no difference. -/
theorem parseLoop_enough {n m : Nat} {stream : Bytes} (hn : stream.length ≤ n)
    (hm : stream.length ≤ m) : parseLoop n stream = parseLoop m stream := by
  induction n generalizing m stream with
  | zero =>
      obtain rfl : stream = [] := List.length_eq_zero_iff.mp (by omega)
      cases m <;> rfl
  | succ n ih =>
      cases m with
      | zero =>
          obtain rfl : stream = [] := List.length_eq_zero_iff.mp (by omega)
          rfl
      | succ m =>
          unfold parseLoop
          split
          · rfl
          · rename_i line rest hline
            have hshorter := getline_length hline
            rw [ih (m := m) (show rest.length ≤ n by omega) (by omega)]

/-- One line with a colon. -/
theorem parse_line {stream line rest : Bytes} {paramEnd : Nat}
    (hline : getline stream = some (line, rest)) (hcolon : find line colon 0 = some paramEnd) :
    parse stream = (do
      let found ← field line paramEnd
      let (fields, rest) ← parse rest
      return (found.toList ++ fields, rest)) := by
  have hshorter := getline_length hline
  unfold parse
  obtain ⟨n, hn⟩ : ∃ n, stream.length = n + 1 := ⟨stream.length - 1, by omega⟩
  rw [hn]
  conv_lhs => unfold parseLoop
  rw [hline]
  dsimp only
  rw [hcolon]
  dsimp only
  rw [parseLoop_enough (n := n) (m := rest.length) (by omega) (Nat.le_refl _)]

/-- A line without a colon is the last one. -/
theorem parse_last {stream line rest : Bytes} (hline : getline stream = some (line, rest))
    (hcolon : find line colon 0 = none) : parse stream = .ok ([], rest) := by
  have hshorter := getline_length hline
  unfold parse
  obtain ⟨n, hn⟩ : ∃ n, stream.length = n + 1 := ⟨stream.length - 1, by omega⟩
  rw [hn]
  unfold parseLoop
  rw [hline]
  dsimp only
  rw [hcolon]
  rfl

/-- What can be written as a field and read back. -/
structure Writable (f : Bytes × Bytes) : Prop where
  name : colon ∉ f.1
  line : lineFeed ∉ f.1
  value : lineFeed ∉ f.2
  /-- A value does not begin with a blank. -/
  head : f.2.head? ≠ some blank

/-- The line of a field, without its line feed. -/
def fieldLine (f : Bytes × Bytes) : Bytes := f.1 ++ colon :: blank :: (f.2 ++ [carriageReturn])

theorem writeField_eq (f : Bytes × Bytes) (rest : Bytes) :
    writeField f ++ rest = fieldLine f ++ lineFeed :: rest := by
  have hsep : utf8 ": " = [colon, blank] := by decide +kernel
  have hend : utf8 "\r\n" = [carriageReturn, lineFeed] := by decide +kernel
  simp [writeField, fieldLine, hsep, hend]

theorem lineFeed_notMem_fieldLine {f : Bytes × Bytes} (h : Writable f) :
    lineFeed ∉ fieldLine f := by
  simp only [fieldLine, List.mem_append, List.mem_cons, List.not_mem_nil, or_false, not_or]
  exact ⟨h.line, by decide, by decide, h.value, by decide⟩

theorem find_fieldLine {f : Bytes × Bytes} (h : Writable f) :
    find (fieldLine f) colon 0 = some f.1.length := by
  simpa [fieldLine] using
    find_append (p := []) (b := blank :: (f.2 ++ [carriageReturn])) h.name

theorem valueStart_fieldLine {f : Bytes × Bytes} (h : Writable f) :
    valueStart (fieldLine f) (f.1.length + 1) = f.1.length + 2 := by
  have hdrop : (fieldLine f).drop (f.1.length + 1) = blank :: (f.2 ++ [carriageReturn]) := by
    simp [fieldLine]
  -- the loop skips the one blank, since the value begins with none
  have hblanks : (blank :: (f.2 ++ [carriageReturn])).takeWhile (· == blank) = [blank] := by
    rw [List.takeWhile_cons_of_pos (by decide)]
    congr 1
    apply takeWhile_head
    intro b hb
    cases hf : f.2 with
    | nil =>
        rw [hf] at hb
        cases hb
        decide
    | cons v vs =>
        rw [hf] at hb
        cases hb
        have hne : b ≠ blank := fun heq => h.head (by simp [hf, heq])
        simpa using hne
  have hlen : (fieldLine f).length = f.1.length + f.2.length + 3 := by
    simp only [fieldLine, List.length_append, List.length_cons, List.length_nil]
    omega
  rw [valueStart, hdrop, hblanks, hlen, List.length_singleton]
  omega

theorem field_fieldLine {f : Bytes × Bytes} (h : Writable f) :
    field (fieldLine f) f.1.length = .ok (some f) := by
  have hlen : (fieldLine f).length = f.1.length + f.2.length + 3 := by
    simp only [fieldLine, List.length_append, List.length_cons, List.length_nil]
    omega
  have hlast : (fieldLine f).getLast? = some carriageReturn := by
    have hsplit : fieldLine f = (f.1 ++ colon :: blank :: f.2) ++ [carriageReturn] := by
      simp [fieldLine]
    rw [hsplit, List.getLast?_concat]
  have hname : substr (fieldLine f) 0 f.1.length = .ok f.1 := by
    rw [substr_of_le (Nat.zero_le _), fieldLine, List.drop_zero, List.take_left]
  have hvalue : substr (fieldLine f) (f.1.length + 2) f.2.length = .ok f.2 := by
    have hsplit : fieldLine f = (f.1 ++ [colon, blank]) ++ (f.2 ++ [carriageReturn]) := by
      simp [fieldLine]
    have hcut := substr_between (f.1 ++ [colon, blank]) f.2 [carriageReturn]
    rw [← hsplit] at hcut
    simpa using hcut
  -- the carriage return at the end of the line does not count
  have hsize : sizeSub (sizeSub (fieldLine f).length (f.1.length + 2)) 1 = f.2.length := by
    rw [hlen, sizeSub_of_le (a := f.1.length + f.2.length + 3) (by omega),
      sizeSub_of_le (by omega)]
    omega
  unfold field
  dsimp only
  rw [valueStart_fieldLine h, if_pos (by omega), hname, if_pos hlast, hsize, hvalue]
  rfl

/-- **A header that was written is read back**, up to the blank line. -/
theorem parse_fields {fields : Header} (h : ∀ f ∈ fields, Writable f) (content : Bytes) :
    parse (fields.flatMap writeField ++ (utf8 "\r\n" ++ content)) = .ok (fields, content) := by
  induction fields with
  | nil =>
      have hend : utf8 "\r\n" ++ content = [carriageReturn] ++ lineFeed :: content := by
        have hcrlf : utf8 "\r\n" = [carriageReturn, lineFeed] := by decide +kernel
        simp [hcrlf]
      rw [List.flatMap_nil, List.nil_append, hend]
      exact parse_last (getline_line (by decide) content) (by decide)
  | cons f fields ih =>
      have hf : Writable f := h f (by simp)
      have hrest := ih fun g hg => h g (List.mem_cons_of_mem f hg)
      rw [List.flatMap_cons, List.append_assoc, writeField_eq]
      rw [parse_line (getline_line (lineFeed_notMem_fieldLine hf) _) (find_fieldLine hf),
        field_fieldLine hf, hrest]
      rfl

end HttpHeader

/-! ## The request line -/

namespace RequestMessage

/-- A request target, cut at its first question mark. -/
inductive Target (t : Bytes) : Bytes → Bytes → Prop where
  | plain (h : questionMark ∉ t) : Target t t []
  | query {path queryString : Bytes} (h : questionMark ∉ path)
      (split : t = path ++ questionMark :: queryString) : Target t path queryString

theorem target_exists (t : Bytes) : ∃ path queryString, Target t path queryString := by
  by_cases h : questionMark ∈ t
  · obtain ⟨path, queryString, hsplit, hpath⟩ := split_at_first h
    exact ⟨path, queryString, .query hpath hsplit⟩
  · exact ⟨t, [], .plain h⟩

theorem scan_none {u : Bytes} (h : blank ∉ u) (i : Nat) (queryStart : Option Nat) :
    (scan u i queryStart).2 = none := by
  induction u generalizing i queryStart with
  | nil => rfl
  | cons b u ih =>
      have hb : b ≠ blank := fun heq => h (by simp [heq])
      have hu : blank ∉ u := fun hmem => h (List.mem_cons_of_mem b hmem)
      rw [scan, if_neg hb]
      split
      · exact ih hu _ _
      · exact ih hu _ _

/-- Without a question mark, or behind the first one, only the blank matters. -/
theorem scan_target {t : Bytes} {queryStart : Option Nat} (hblank : blank ∉ t)
    (h : questionMark ∉ t ∨ queryStart ≠ none) (rest : Bytes) (i : Nat) :
    scan (t ++ blank :: rest) i queryStart = (queryStart, some (i + t.length)) := by
  -- byte by byte, with the position of the loop
  induction t generalizing i with
  | nil =>
      rw [List.nil_append, scan, if_neg (by rintro ⟨h, -⟩; exact absurd h (by decide)), if_pos rfl]
      rfl
  | cons b t ih =>
      have hb : b ≠ blank := fun heq => hblank (by simp [heq])
      have hskip : ¬ (b = questionMark ∧ t ++ blank :: rest ≠ [] ∧ queryStart = none) := by
        rintro ⟨rfl, -, hnone⟩
        rcases h with h | h
        · exact h (by simp)
        · exact h hnone
      have ht : questionMark ∉ t ∨ queryStart ≠ none :=
        h.imp_left fun hq hmem => hq (List.mem_cons_of_mem b hmem)
      rw [List.cons_append, scan, if_neg hskip, if_neg hb,
        ih (fun hmem => hblank (List.mem_cons_of_mem b hmem)) ht, List.length_cons]
      congr 2
      omega

theorem scan_query {path queryString : Bytes} (hpath : questionMark ∉ path)
    (hblank : blank ∉ path ++ questionMark :: queryString) (rest : Bytes) (i : Nat) :
    scan ((path ++ questionMark :: queryString) ++ blank :: rest) i none
      = (some (i + path.length + 1), some (i + (path ++ questionMark :: queryString).length)) := by
  induction path generalizing i with
  | nil =>
      have hq : blank ∉ queryString := fun hmem => hblank (by simp [hmem])
      rw [List.nil_append, List.cons_append, scan, if_pos ⟨rfl, by simp, rfl⟩,
        scan_target hq (.inr (by simp)), List.length_cons]
      congr 2
      omega
  | cons b path ih =>
      have hb : b ≠ blank := fun heq => hblank (by simp [heq])
      have hmark : b ≠ questionMark := fun heq => hpath (by simp [heq])
      rw [List.cons_append, List.cons_append, scan, if_neg (fun h => hmark h.1), if_neg hb,
        ih (fun hmem => hpath (List.mem_cons_of_mem b hmem))
          (fun hmem => hblank (List.mem_cons_of_mem b hmem))]
      simp only [List.length_append, List.length_cons]
      congr 2
      · congr 1
        omega
      · omega

/-- The line of a request up to the blank behind the target. -/
def lineUpTo (m t w : Bytes) : Bytes := m ++ blank :: (t ++ blank :: w)

theorem lineUpTo_length (m t w : Bytes) :
    (lineUpTo m t w).length = m.length + t.length + w.length + 2 := by
  simp only [lineUpTo, List.length_append, List.length_cons]
  omega

/-- What begins at a position of the target. -/
theorem drop_target (m t w : Bytes) :
    (lineUpTo m t w).drop (m.length + 1) = t ++ blank :: w := by
  simp [lineUpTo]

theorem drop_protocol (m t w : Bytes) :
    (lineUpTo m t w).drop (m.length + 1 + t.length + 1) = w := by
  have hsplit : lineUpTo m t w = (m ++ blank :: (t ++ [blank])) ++ w := by simp [lineUpTo]
  have hlen : (m ++ blank :: (t ++ [blank])).length = m.length + 1 + t.length + 1 := by
    simp only [List.length_append, List.length_cons, List.length_nil]
    omega
  rw [hsplit, ← hlen, List.drop_left]

/-- The two cuts of the target give its path and its query string. -/
theorem scan_cut {m t w path queryString : Bytes} (ht : blank ∉ t)
    (htarget : Target t path queryString) :
    ∃ queryStart, scan (t ++ blank :: w) (m.length + 1) none
        = (queryStart, some (m.length + 1 + t.length))
      ∧ cutTarget (lineUpTo m t w) m.length (m.length + 1 + t.length) queryStart
          = .ok (path, queryString) := by
  have hlen := lineUpTo_length m t w
  have hdrop := drop_target m t w
  cases htarget with
  | plain hmark =>
      refine ⟨none, scan_target ht (.inl hmark) w _, ?_⟩
      have hsize : sizeSub (sizeSub (m.length + 1 + t.length) m.length) 1 = t.length := by
        rw [sizeSub_of_le (a := m.length + 1 + t.length) (by omega), sizeSub_of_le (by omega)]
        omega
      have hcut : substr (lineUpTo m t w) (m.length + 1) t.length = .ok t := by
        rw [substr_of_le (by omega), hdrop, List.take_left]
      unfold cutTarget
      dsimp only
      rw [hsize, hcut]
      rfl
  | query hpath hsplit =>
      subst hsplit
      refine ⟨some (m.length + 1 + path.length + 1), scan_query hpath ht w _, ?_⟩
      simp only [List.length_append, List.length_cons] at hlen
      have hsize : sizeSub (sizeSub (m.length + 1 + path.length + 1) m.length) 2 = path.length := by
        rw [sizeSub_of_le (a := m.length + 1 + path.length + 1) (by omega),
          sizeSub_of_le (by omega)]
        omega
      have hfirst : substr (lineUpTo m (path ++ questionMark :: queryString) w) (m.length + 1)
          path.length = .ok path := by
        rw [substr_of_le (by omega), hdrop, List.append_assoc, List.take_left]
      have hquery : substr (lineUpTo m (path ++ questionMark :: queryString) w)
          (m.length + 1 + path.length + 1) queryString.length = .ok queryString := by
        have hall : lineUpTo m (path ++ questionMark :: queryString) w
            = (m ++ blank :: (path ++ [questionMark])) ++ (queryString ++ blank :: w) := by
          simp [lineUpTo]
        have hpos : (m ++ blank :: (path ++ [questionMark])).length
            = m.length + 1 + path.length + 1 := by
          simp only [List.length_append, List.length_cons, List.length_nil]
          omega
        rw [hall, ← hpos]
        exact substr_between _ _ _
      have hstop : sizeSub (m.length + 1 + (path ++ questionMark :: queryString).length)
          (m.length + 1 + path.length + 1) = queryString.length := by
        simp only [List.length_append, List.length_cons]
        rw [sizeSub_of_le (by omega)]
        omega
      unfold cutTarget
      dsimp only
      rw [hsize, hstop, hfirst, hquery]
      rfl

/-- What `parse` does with a request line behind its second blank. -/
def afterTarget (line m path queryString tail : Bytes) (protocolStart protocolEnd : Nat) :
    Except Exception (Option RequestMessage × Bytes) := do
  let protocol ← substr line protocolStart (sizeSub (sizeSub protocolEnd (protocolStart - 1)) 1)
  if protocol ≠ utf8 "HTTP" then
    return (none, tail)
  let version ← substr line (protocolEnd + 1) (sizeSub (sizeSub line.length protocolEnd) 2)
  let (header, rest) ← HttpHeader.parse tail
  return (some ⟨m, path, queryString, version, header⟩, rest)

/-- **A request line with two blanks**: it comes down to what is behind the second one. -/
theorem parse_twoBlanks {stream m t w tail path queryString : Bytes}
    (hline : getline stream = some (lineUpTo m t w, tail)) (hm : blank ∉ m) (ht : blank ∉ t)
    (htarget : Target t path queryString) :
    parse stream = (find (lineUpTo m t w) slash (m.length + 1 + t.length + 1)).elim
      (.ok (none, tail))
      (afterTarget (lineUpTo m t w) m path queryString tail (m.length + 1 + t.length + 1)) := by
  have hmethod : find (lineUpTo m t w) blank 0 = some m.length := by
    simpa [lineUpTo] using find_append (p := []) (b := t ++ blank :: w) hm
  have hcut : substr (lineUpTo m t w) 0 m.length = .ok m := by
    rw [substr_of_le (Nat.zero_le _), lineUpTo, List.drop_zero, List.take_left]
  obtain ⟨queryStart, hscan, htwo⟩ := scan_cut (m := m) (w := w) ht htarget
  unfold parse
  rw [hline]
  dsimp only
  rw [hmethod]
  dsimp only
  rw [hcut, drop_target, hscan]
  simp only [bind, Except.bind, htwo]
  cases find (lineUpTo m t w) slash (m.length + 1 + t.length + 1) <;> rfl

/-- The protocol stands between the second blank and the slash. -/
theorem protocol_cut {m t p v : Bytes} :
    substr (lineUpTo m t (p ++ slash :: v)) (m.length + 1 + t.length + 1)
      (sizeSub (sizeSub (m.length + 1 + t.length + 1 + p.length)
        (m.length + 1 + t.length + 1 - 1)) 1) = .ok p := by
  have hlen := lineUpTo_length m t (p ++ slash :: v)
  have hsize : sizeSub (sizeSub (m.length + 1 + t.length + 1 + p.length)
      (m.length + 1 + t.length + 1 - 1)) 1 = p.length := by
    rw [sizeSub_of_le (a := m.length + 1 + t.length + 1 + p.length) (by omega),
      sizeSub_of_le (by omega)]
    omega
  rw [hsize, substr_of_le (by omega), drop_protocol, List.take_left]

/-- The version is what is left, without the carriage return. -/
theorem version_cut {m t p v : Bytes} :
    substr (lineUpTo m t (p ++ slash :: v)) (m.length + 1 + t.length + 1 + p.length + 1)
      (sizeSub (sizeSub (lineUpTo m t (p ++ slash :: v)).length
        (m.length + 1 + t.length + 1 + p.length)) 2) = .ok v.dropLast := by
  have hlen := lineUpTo_length m t (p ++ slash :: v)
  simp only [List.length_append, List.length_cons] at hlen
  have hrest : (lineUpTo m t (p ++ slash :: v)).drop
      (m.length + 1 + t.length + 1 + p.length + 1) = v := by
    rw [Nat.add_assoc _ p.length 1, ← List.drop_drop, drop_protocol]
    simp
  rw [substr_of_le (by omega), hrest, hlen,
    sizeSub_of_le (b := m.length + 1 + t.length + 1 + p.length) (by omega),
    List.dropLast_eq_take]
  cases v with
  | nil => simp
  | cons b v =>
      rw [sizeSub_of_le (by simp only [List.length_cons]; omega)]
      congr 2
      simp only [List.length_cons]
      omega

/-- With `HTTP/` there, the rest of the line is the version. -/
theorem parse_http {stream m t v tail path queryString : Bytes}
    (hline : getline stream = some (lineUpTo m t (utf8 "HTTP" ++ slash :: v), tail))
    (hm : blank ∉ m) (ht : blank ∉ t) (htarget : Target t path queryString) :
    parse stream = (do
      let (header, rest) ← HttpHeader.parse tail
      return (some ⟨m, path, queryString, v.dropLast, header⟩, rest)) := by
  have hsplit : lineUpTo m t (utf8 "HTTP" ++ slash :: v)
      = (m ++ blank :: (t ++ [blank])) ++ (utf8 "HTTP" ++ slash :: v) := by simp [lineUpTo]
  have hpos : (m ++ blank :: (t ++ [blank])).length = m.length + 1 + t.length + 1 := by
    simp only [List.length_append, List.length_cons, List.length_nil]
    omega
  have hfind : find (lineUpTo m t (utf8 "HTTP" ++ slash :: v)) slash (m.length + 1 + t.length + 1)
      = some (m.length + 1 + t.length + 1 + (utf8 "HTTP").length) := by
    rw [hsplit, ← hpos]
    exact find_append (by decide +kernel)
  rw [parse_twoBlanks hline hm ht htarget, hfind, Option.elim_some, afterTarget, protocol_cut,
    version_cut]
  rfl

/-- Without it, the line is refused. -/
theorem parse_noHttp {stream m t w tail path queryString : Bytes}
    (hline : getline stream = some (lineUpTo m t w, tail)) (hm : blank ∉ m) (ht : blank ∉ t)
    (htarget : Target t path queryString) (hother : ∀ v, w ≠ utf8 "HTTP" ++ slash :: v) :
    parse stream = .ok (none, tail) := by
  rw [parse_twoBlanks hline hm ht htarget]
  cases hfind : find (lineUpTo m t w) slash (m.length + 1 + t.length + 1) with
  | none => rfl
  | some protocolEnd =>
      obtain ⟨p, v, hw, -, rfl⟩ := find_eq_some hfind
      rw [drop_protocol] at hw
      subst hw
      have hne : p ≠ utf8 "HTTP" := by
        rintro rfl
        exact hother v rfl
      rw [Option.elim_some, afterTarget, protocol_cut]
      simp only [bind, Except.bind, if_pos hne]
      rfl

/-- A line without two blanks in it is refused. -/
theorem parse_short {stream line tail : Bytes} (hline : getline stream = some (line, tail))
    (hshort : ∀ m t w, blank ∉ m → blank ∉ t → line ≠ lineUpTo m t w) :
    parse stream = .ok (none, tail) := by
  unfold parse
  rw [hline]
  dsimp only
  cases hfind : find line blank 0 with
  | none => rfl
  | some methodEnd =>
      obtain ⟨m, u, hsplit, hm, rfl⟩ := find_eq_some hfind
      rw [List.drop_zero] at hsplit
      subst hsplit
      have hu : blank ∉ u := by
        intro hmem
        obtain ⟨t, w, rfl, ht⟩ := split_at_first hmem
        exact hshort m t w hm ht rfl
      have hcut : substr (m ++ blank :: u) 0 (0 + m.length) = .ok m := by
        rw [substr_of_le (Nat.zero_le _), List.drop_zero, Nat.zero_add, List.take_left]
      have hdrop : (m ++ blank :: u).drop (0 + m.length + 1) = u := by simp
      have hscan := scan_none hu (0 + m.length + 1) none
      dsimp only
      rw [hcut, hdrop]
      obtain ⟨queryStart, htarget⟩ : ∃ queryStart,
          scan u (0 + m.length + 1) none = (queryStart, none) := ⟨_, Prod.ext rfl hscan⟩
      rw [htarget]
      rfl

/-- The requests that are taken: three parts, `HTTP/` and the version, whose last byte goes. -/
def Accepted (stream : Bytes) (request : RequestMessage) (rest : Bytes) : Prop :=
  ∃ target version tail,
    getline stream
        = some (lineUpTo request.method target (utf8 "HTTP" ++ slash :: version), tail)
      ∧ blank ∉ request.method ∧ blank ∉ target
      ∧ Target target request.path request.queryString
      ∧ request.version = version.dropLast
      ∧ HttpHeader.parse tail = .ok (request.header, rest)

theorem Accepted.parse {stream rest : Bytes} {request : RequestMessage}
    (h : Accepted stream request rest) : parse stream = .ok (some request, rest) := by
  obtain ⟨target, version, tail, hline, hmethod, hblank, htarget, hversion, hheader⟩ := h
  rw [parse_http hline hmethod hblank htarget, hheader, ← hversion]
  rfl

theorem parse_cases (stream : Bytes) :
    (∃ rest, parse stream = .ok (none, rest))
      ∨ ∃ request rest, Accepted stream request rest := by
  cases hline : getline stream with
  | none =>
      refine .inl ⟨stream, ?_⟩
      unfold parse
      rw [hline]
      rfl
  | some pair =>
      obtain ⟨line, tail⟩ := pair
      -- a line with two blanks, and then one with `HTTP/` behind the second
      by_cases htwo : ∃ m t w, blank ∉ m ∧ blank ∉ t ∧ line = lineUpTo m t w
      · obtain ⟨m, t, w, hm, ht, rfl⟩ := htwo
        obtain ⟨path, queryString, htarget⟩ := target_exists t
        by_cases hhttp : ∃ v, w = utf8 "HTTP" ++ slash :: v
        · obtain ⟨v, rfl⟩ := hhttp
          obtain ⟨⟨header, rest⟩, hheader⟩ := HttpHeader.parseLoop_ok tail.length tail
          exact .inr ⟨⟨m, path, queryString, v.dropLast, header⟩, rest, t, v, tail, hline, hm, ht,
            htarget, rfl, hheader⟩
        · have hother : ∀ v, w ≠ utf8 "HTTP" ++ slash :: v := fun v hv => hhttp ⟨v, hv⟩
          exact .inl ⟨tail, parse_noHttp hline hm ht htarget hother⟩
      · refine .inl ⟨tail, parse_short hline ?_⟩
        rintro m t w hm ht rfl
        exact htwo ⟨m, t, w, hm, ht, rfl⟩

/--
No request makes the parser cut out of range, and it takes a request exactly if its
first line consists of a method, a target and a version, with one blank between them.
-/
theorem parse_exact (stream : Bytes) :
    (∃ result, parse stream = .ok result)
      ∧ ∀ request rest, parse stream = .ok (some request, rest) ↔ Accepted stream request rest := by
  rcases parse_cases stream with ⟨rest, hnone⟩ | ⟨request, rest, haccepted⟩
  · refine ⟨⟨_, hnone⟩, fun request rest' => ⟨fun hsome => ?_, Accepted.parse⟩⟩
    rw [hnone] at hsome
    cases hsome
  · refine ⟨⟨_, haccepted.parse⟩, fun request' rest' => ⟨fun hsome => ?_, Accepted.parse⟩⟩
    rw [haccepted.parse] at hsome
    cases hsome
    exact haccepted

/-! ## A request as a client writes it -/

/-- A request that can be written and read back. -/
structure Writable (r : RequestMessage) : Prop where
  method : blank ∉ r.method ∧ lineFeed ∉ r.method
  path : blank ∉ r.path ∧ lineFeed ∉ r.path ∧ questionMark ∉ r.path
  queryString : blank ∉ r.queryString ∧ lineFeed ∉ r.queryString
  version : lineFeed ∉ r.version
  header : ∀ f ∈ r.header, HttpHeader.Writable f

/-- The request target. -/
def target (r : RequestMessage) : Bytes :=
  if r.queryString = [] then r.path else r.path ++ questionMark :: r.queryString

/-- Request line and header, with the blank line. -/
def text (r : RequestMessage) : Bytes :=
  r.method ++ blank :: (r.target ++ blank :: (utf8 "HTTP/" ++ r.version ++ utf8 "\r\n"))
    ++ (r.header.flatMap writeField ++ utf8 "\r\n")

theorem target_spec {r : RequestMessage} (h : Writable r) :
    Target r.target r.path r.queryString := by
  unfold target
  split
  · rename_i hempty
    rw [hempty]
    exact .plain h.path.2.2
  · exact .query h.path.2.2 rfl

theorem notMem_target {r : RequestMessage} (h : Writable r) :
    blank ∉ r.target ∧ lineFeed ∉ r.target := by
  unfold target
  split
  · exact ⟨h.path.1, h.path.2.1⟩
  · simp only [List.mem_append, List.mem_cons, not_or]
    exact ⟨⟨h.path.1, by decide, h.queryString.1⟩, h.path.2.1, by decide, h.queryString.2⟩

/--
A request that was written is read back, and what follows its header stays in the
stream.
-/
theorem parse_text {r : RequestMessage} (h : Writable r) (content : Bytes) :
    parse (r.text ++ content) = .ok (some r, content) := by
  have hcrlf : utf8 "\r\n" = [carriageReturn, lineFeed] := by decide +kernel
  have hhttp : utf8 "HTTP/" = utf8 "HTTP" ++ [slash] := by decide +kernel
  obtain ⟨hblank, hfeed⟩ := notMem_target h
  let line := lineUpTo r.method r.target (utf8 "HTTP" ++ slash :: (r.version ++ [carriageReturn]))
  let tail := r.header.flatMap writeField ++ (utf8 "\r\n" ++ content)
  have htext : r.text ++ content = line ++ lineFeed :: tail := by
    simp [text, line, tail, lineUpTo, hhttp, hcrlf]
  have hline : lineFeed ∉ line := by
    have hfour : lineFeed ∉ utf8 "HTTP" := by decide +kernel
    simp only [line, lineUpTo, List.mem_append, List.mem_cons, List.not_mem_nil, or_false, not_or]
    exact ⟨h.method.2, by decide, hfeed, by decide, hfour, by decide, h.version, by decide⟩
  refine Accepted.parse ⟨r.target, r.version ++ [carriageReturn], tail, ?_, h.method.1, hblank,
    target_spec h, (List.dropLast_concat).symm, HttpHeader.parse_fields h.header content⟩
  rw [htext]
  exact getline_line hline tail

end RequestMessage

/-! ## A response as the server writes it -/

namespace ResponseMessage

/-- Status line and header, with the blank line. -/
def text (status : Bytes) (header : Header) : Bytes :=
  utf8 "HTTP/1.1 " ++ status ++ utf8 "\r\n" ++ header.flatMap writeField ++ utf8 "\r\n"

theorem parse_text {status : Bytes} {header : Header} (hne : status ≠ [])
    (hstatus : lineFeed ∉ status) (hheader : ∀ f ∈ header, HttpHeader.Writable f)
    (content : Bytes) :
    parse (text status header ++ content) = .ok (some (utf8 "1.1", status, header), content) := by
  have hcrlf : utf8 "\r\n" = [carriageReturn, lineFeed] := by decide +kernel
  have hversion : utf8 "HTTP/1.1 " = utf8 "HTTP/1.1" ++ [blank] := by decide +kernel
  have height : (utf8 "HTTP/1.1").length = 8 := by decide +kernel
  have hnoBlank : blank ∉ utf8 "HTTP/1.1" := by decide +kernel
  have hnoFeed : lineFeed ∉ utf8 "HTTP/1.1" := by decide +kernel
  let line := utf8 "HTTP/1.1" ++ blank :: (status ++ [carriageReturn])
  let tail := header.flatMap writeField ++ (utf8 "\r\n" ++ content)
  have htext : text status header ++ content = line ++ lineFeed :: tail := by
    simp [text, line, tail, hversion, hcrlf]
  have hline : lineFeed ∉ line := by
    simp only [line, List.mem_append, List.mem_cons, List.not_mem_nil, or_false, not_or]
    exact ⟨hnoFeed, by decide, hstatus, by decide⟩
  have hpos : 0 < status.length := List.length_pos_iff.mpr hne
  have hlen : line.length = status.length + 10 := by
    simp only [line, List.length_append, List.length_cons, List.length_nil, height]
    omega
  have hfind : find line blank 0 = some 8 := by
    have hfound := find_append (p := []) (b := status ++ [carriageReturn]) hnoBlank
    rw [height] at hfound
    exact hfound
  have hnumber : substr line 5 (sizeSub 8 5) = .ok (utf8 "1.1") := by
    have hsplit :
        line = utf8 "HTTP/" ++ (utf8 "1.1" ++ (blank :: (status ++ [carriageReturn]))) := by
      have hparts : utf8 "HTTP/1.1" = utf8 "HTTP/" ++ utf8 "1.1" := by decide +kernel
      simp [line, hparts]
    rw [hsplit]
    exact substr_between (utf8 "HTTP/") (utf8 "1.1") _
  have hlast : line.getLast? = some carriageReturn := by
    have hsplit : line = (utf8 "HTTP/1.1" ++ blank :: status) ++ [carriageReturn] := by simp [line]
    rw [hsplit, List.getLast?_concat]
  have hcode : substr line 9 status.length = .ok status := by
    have hsplit : line = (utf8 "HTTP/1.1" ++ [blank]) ++ (status ++ [carriageReturn]) := by
      simp [line]
    have hcut := substr_between (utf8 "HTTP/1.1" ++ [blank]) status [carriageReturn]
    rw [← hsplit] at hcut
    simpa [height] using hcut
  have hsize : sizeSub (sizeSub line.length 9) 1 = status.length := by
    rw [hlen, sizeSub_of_le (a := status.length + 10) (by omega), sizeSub_of_le (by omega)]
    omega
  unfold parse
  rw [htext, getline_line hline]
  dsimp only
  rw [hfind]
  dsimp only
  rw [if_pos (by omega), hnumber]
  simp only [bind, Except.bind]
  rw [if_pos (by omega), if_pos hlast, hsize, hcode]
  simp only [tail, HttpHeader.parse_fields hheader]
  rfl

end ResponseMessage

end MobaDisplay
