import MobaDisplay.Proof.RequestMessage

/-!
# Query strings are read back as they were created

`parse` goes through the text once and remembers where the name began, where the first
equals sign stood and where the value began. `Position.behind` says what it remembers
behind a piece of the text, so that what it cuts out there is the field of the piece. So it
does what splitting at the ampersands and cutting at the first equals sign would do, for any
text; and what `create` has written has the pieces it was written from. Its values have no byte
in them that means something to the line of a request either.
-/

namespace MobaDisplay

open Cxx

/-! ## Percent encoding -/

namespace Percent

/-- **An escape is read back**, whatever it is the escape of, and whatever follows. -/
theorem decode_escape (chr : UInt8) (rest : Bytes) :
    decode (escape chr ++ rest) = chr :: decode rest := by
  -- there are only 256 characters
  have hbytes : ∀ n < 256, UInt8.ofInt (strtol16 (escape (UInt8.ofNat n)).tail)
      = UInt8.ofNat n := by
    decide +kernel
  have hchr := hbytes chr.toNat chr.toNat_lt
  rw [UInt8.ofNat_toNat] at hchr
  unfold escape at hchr ⊢
  rw [List.cons_append, List.cons_append, List.cons_append, List.nil_append, decode,
    if_pos rfl]
  exact congrArg (· :: decode rest) hchr

/-- What stays as it is means nothing to `decode`. -/
theorem decode_unreserved {chr : UInt8} (h : isUnreserved chr = true) (rest : Bytes) :
    decode (chr :: rest) = chr :: decode rest := by
  have hpercent : chr ≠ percent := by
    rintro rfl
    exact absurd h (by decide)
  have hplus : chr ≠ plus := by
    rintro rfl
    exact absurd h (by decide)
  match rest with
  | [] => simp only [decode, if_neg hplus]
  | [a] => simp only [decode, if_neg hplus, List.singleton_append]
  | a :: b :: rest => rw [decode, if_neg hpercent, if_neg hplus, List.singleton_append]

theorem decode_encode_append (value rest : Bytes) :
    decode (encode value ++ rest) = value ++ decode rest := by
  induction value with
  | nil => rfl
  | cons chr value ih =>
      have hcons : encode (chr :: value)
          = (if isUnreserved chr then [chr] else escape chr) ++ encode value :=
        List.flatMap_cons ..
      rw [hcons, List.append_assoc]
      split
      · rename_i hchr
        rw [List.singleton_append, decode_unreserved hchr, ih, List.cons_append]
      · rw [decode_escape, ih, List.cons_append]

/-- **Every value is read back**, byte for byte. -/
theorem decode_encode (value : Bytes) : decode (encode value) = value := by
  have h := decode_encode_append value []
  rwa [List.append_nil, decode, List.append_nil] at h

/-- An encoded value has unreserved characters and percent signs in it, and nothing else. -/
theorem mem_encode {value : Bytes} {b : UInt8} (h : b ∈ encode value) :
    isUnreserved b = true ∨ b = percent := by
  have hbytes : ∀ n < 256, ∀ b ∈
      (if isUnreserved (UInt8.ofNat n) then [UInt8.ofNat n] else escape (UInt8.ofNat n)),
      isUnreserved b = true ∨ b = percent := by
    decide +kernel
  obtain ⟨chr, _, hchr⟩ := List.mem_flatMap.mp h
  have hone := hbytes chr.toNat chr.toNat_lt
  rw [UInt8.ofNat_toNat] at hone
  exact hone b hchr

/-- So none of the characters that mean something around it. -/
theorem notMem_encode {b : UInt8} (hreserved : isUnreserved b = false) (hb : b ≠ percent)
    (value : Bytes) : b ∉ encode value := by
  intro hmem
  rcases mem_encode hmem with hunreserved | hpercent
  · rw [hreserved] at hunreserved
    exact Bool.noConfusion hunreserved
  · exact hb hpercent

end Percent

namespace QueryString

/-! ## What a piece of the text means -/

/-- The field of a piece between two ampersands; a piece without a name has none. -/
def fieldOf (piece : Bytes) : Option (Bytes × Bytes) :=
  let name := piece.takeWhile (· != equalsSign)
  if name = [] then none
  else some (name, Percent.decode ((piece.dropWhile (· != equalsSign)).drop 1))

/-- The position behind a piece that begins behind `before`. -/
def Position.behind (before piece : Bytes) : Position where
  namePos := before.length
  nameEndPos := (find piece equalsSign 0).map (before.length + ·)
  valuePos := (find piece equalsSign 0).map (before.length + · + 1)

/-- A piece without an equals sign is all name. -/
theorem fieldOf_plain {piece : Bytes} (h : equalsSign ∉ piece) :
    find piece equalsSign 0 = none
      ∧ fieldOf piece = if piece = [] then none else some (piece, []) := by
  have hall : ∀ b ∈ piece, (b != equalsSign) = true := by
    intro b hb
    simpa using fun heq : b = equalsSign => h (heq ▸ hb)
  refine ⟨find_eq_none_iff.mpr h, ?_⟩
  rw [fieldOf, List.takeWhile_eq_self_iff.mpr hall, List.dropWhile_eq_nil_iff.mpr hall]
  rfl

theorem fieldOf_value {name value : Bytes} (h : equalsSign ∉ name) :
    find (name ++ equalsSign :: value) equalsSign 0 = some name.length
      ∧ fieldOf (name ++ equalsSign :: value)
        = if name = [] then none else some (name, Percent.decode value) := by
  refine ⟨?_, ?_⟩
  · simpa using find_append (p := []) (b := value) h
  · rw [fieldOf, takeWhile_ne_of_not_mem h, dropWhile_ne_of_not_mem h]
    rfl

/-! ## Every cut is the field of its piece -/

theorem substr_at {s a b c : Bytes} {pos n : Nat} (hs : s = a ++ (b ++ c)) (hpos : pos = a.length)
    (hn : n = b.length) : substr s pos n = .ok b := by
  rw [hs, hpos, hn, substr_between]

theorem behind_plain {before piece : Bytes} (h : equalsSign ∉ piece) :
    Position.behind before piece = ⟨before.length, none, none⟩ := by
  rw [Position.behind, (fieldOf_plain h).1]
  rfl

theorem behind_value {before name value : Bytes} (h : equalsSign ∉ name) :
    Position.behind before (name ++ equalsSign :: value)
      = ⟨before.length, some (before.length + name.length),
          some (before.length + name.length + 1)⟩ := by
  rw [Position.behind, (fieldOf_value h).1]
  rfl

theorem fieldBefore_ok (before piece rest : Bytes) :
    fieldBefore (before ++ (piece ++ rest)) (.behind before piece) (before.length + piece.length)
      = .ok (fieldOf piece).toList := by
  have hsize : sizeSub (before.length + piece.length) before.length = piece.length := by
    rw [sizeSub_of_le (by omega)]
    omega
  unfold fieldBefore
  -- a piece with a value, then one without
  by_cases h : equalsSign ∈ piece
  · obtain ⟨name, value, rfl, hname⟩ := split_at_first h
    have hcut : substr (before ++ (name ++ equalsSign :: value ++ rest)) before.length
        (sizeSub (before.length + name.length) before.length) = .ok name := by
      refine substr_at (c := equalsSign :: value ++ rest) (by simp) rfl ?_
      rw [sizeSub_of_le (by omega)]
      omega
    have hvalue : substr (before ++ (name ++ equalsSign :: value ++ rest))
        (before.length + name.length + 1)
        (sizeSub (before.length + (name ++ equalsSign :: value).length)
          (before.length + name.length + 1)) = .ok value := by
      refine substr_at (a := before ++ (name ++ [equalsSign])) (c := rest) (by simp) ?_ ?_
      · simp [Nat.add_assoc]
      · rw [List.length_append, List.length_cons, sizeSub_of_le (by omega)]
        omega
    rw [behind_value hname, (fieldOf_value hname).2]
    dsimp only
    rw [Option.getD_some, hcut, hvalue]
    by_cases hnil : name = []
    · rw [hnil]
      rfl
    · rw [if_neg hnil]
      simp only [bind, Except.bind, if_pos hnil]
      rfl
  · rw [behind_plain h, (fieldOf_plain h).2]
    dsimp only
    rw [Option.getD_none, hsize, substr_between]
    by_cases hnil : piece = []
    · rw [hnil]
      rfl
    · rw [if_neg hnil]
      simp only [bind, Except.bind, if_pos hnil]
      rfl

theorem substrFrom_at {s a b : Bytes} {pos : Nat} (hs : s = a ++ b) (hpos : pos = a.length) :
    substrFrom s pos = .ok b := by
  rw [substrFrom, hs, hpos, if_neg (by simp), List.drop_left]

theorem fieldAtEnd_ok (before piece : Bytes) :
    fieldAtEnd (before ++ piece) (.behind before piece) = .ok (fieldOf piece).toList := by
  by_cases hnil : piece = []
  · rw [hnil, fieldAtEnd, if_neg (by simp [Position.behind])]
    rfl
  have hlength : 0 < piece.length := List.length_pos_iff.mpr hnil
  unfold fieldAtEnd
  by_cases h : equalsSign ∈ piece
  · obtain ⟨name, value, rfl, hname⟩ := split_at_first h
    have hcut : substr (before ++ (name ++ equalsSign :: value)) before.length
        (sizeSub (before.length + name.length) before.length) = .ok name := by
      refine substr_at rfl rfl ?_
      rw [sizeSub_of_le (by omega)]
      omega
    -- behind the last byte there is nothing to cut
    have hvalue : valueAtEnd (before ++ (name ++ equalsSign :: value))
        (some (before.length + name.length + 1)) = .ok value := by
      rw [valueAtEnd, List.length_append, List.length_append, List.length_cons]
      split
      · obtain rfl : value = [] := List.length_eq_zero_iff.mp (by omega)
        rfl
      · exact substrFrom_at (a := before ++ (name ++ [equalsSign])) (by simp)
          (by simp [Nat.add_assoc])
    rw [behind_value hname, (fieldOf_value hname).2, if_pos (by simp)]
    dsimp only
    rw [hcut, hvalue]
    by_cases hempty : name = []
    · rw [hempty]
      rfl
    · rw [if_neg hempty]
      simp only [bind, Except.bind, if_pos hempty]
      rfl
  · rw [behind_plain h, (fieldOf_plain h).2, if_pos (by simp; omega), if_neg hnil]
    dsimp only
    rw [substrFrom_at rfl rfl]
    simp only [bind, Except.bind, if_pos hnil]
    rfl

/-- One more byte of a piece. -/
theorem behind_snoc (before piece : Bytes) (chr : UInt8) :
    Position.behind before (piece ++ [chr])
      = if chr = equalsSign ∧ (Position.behind before piece).nameEndPos = none then
          { Position.behind before piece with
            nameEndPos := some (before.length + piece.length)
            valuePos := some (before.length + piece.length + 1) }
        else .behind before piece := by
  -- only the first equals sign counts
  by_cases h : equalsSign ∈ piece
  · obtain ⟨name, value, rfl, hname⟩ := split_at_first h
    rw [List.append_assoc, List.cons_append, behind_value hname, behind_value hname,
      if_neg (by simp)]
  · rw [behind_plain h]
    by_cases hchr : chr = equalsSign
    · rw [hchr, behind_value h, if_pos ⟨rfl, rfl⟩]
    · rw [if_neg (fun hand => hchr hand.1), behind_plain]
      simp [h, Ne.symm hchr]

/-- **The loop finds the fields of the pieces.** -/
theorem parseLoop_ok (before piece rest : Bytes) (h : ampersand ∉ piece) :
    parseLoop (before ++ (piece ++ rest)) rest (before.length + piece.length)
        (.behind before piece)
      = .ok (((piece ++ rest).splitOn ampersand).filterMap fieldOf) := by
  -- `before` ends with the last ampersand, `piece` is what has come since
  induction rest generalizing before piece with
  | nil =>
      rw [parseLoop, List.append_nil, fieldAtEnd_ok, List.splitOn_eq_singleton h]
      cases hfield : fieldOf piece <;> simp [hfield]
  | cons chr rest ih =>
      rw [parseLoop]
      by_cases hchr : chr = ampersand
      · -- the piece ends here
        have hnext := ih (before ++ (piece ++ [chr])) [] (by simp)
        have htext : before ++ (piece ++ [chr]) ++ ([] ++ rest)
            = before ++ (piece ++ chr :: rest) := by
          simp
        have hlength : (before ++ (piece ++ [chr])).length + ([] : Bytes).length
            = before.length + piece.length + 1 := by
          simp [Nat.add_assoc]
        have hfresh : Position.behind (before ++ (piece ++ [chr])) []
            = ⟨before.length + piece.length + 1, none, none⟩ := by
          rw [behind_plain (by simp)]
          simp [Nat.add_assoc]
        rw [htext, hlength, hfresh, List.nil_append] at hnext
        rw [if_pos hchr, fieldBefore_ok, hnext, hchr, List.splitOn_append_cons_self_of_not_mem h]
        cases hfield : fieldOf piece <;> simp [hfield, bind, Except.bind, pure, Except.pure]
      · -- one more byte of it
        have hpiece : ampersand ∉ piece ++ [chr] := by
          simp [h, Ne.symm hchr]
        have hnext := ih before (piece ++ [chr]) hpiece
        rw [List.append_assoc, List.singleton_append, List.length_append, List.length_singleton,
          ← Nat.add_assoc, behind_snoc] at hnext
        rw [if_neg hchr, ← hnext]
        split <;> rfl

theorem parse_of_ne_nil {queryString : Bytes} (h : queryString ≠ []) :
    parse queryString = .ok ((queryString.splitOn ampersand).filterMap fieldOf) := by
  have hloop := parseLoop_ok [] [] queryString (by simp)
  rw [behind_plain (by simp)] at hloop
  rw [parse, if_neg h]
  exact hloop

/--
**`parse` takes every text apart as it was meant**: at the ampersands, and each piece
at its first equals sign. It never cuts out of range.
-/
theorem parse_pieces (queryString : Bytes) :
    parse queryString = .ok ((queryString.splitOn ampersand).filterMap fieldOf) := by
  by_cases h : queryString = []
  · rw [h]
    rfl
  · exact parse_of_ne_nil h

/-! ## Round trip -/

/-- What can be written as a field and read back. -/
structure Writable (f : Bytes × Bytes) : Prop where
  name : f.1 ≠ []
  ampersand : ampersand ∉ f.1
  equalsSign : equalsSign ∉ f.1

/-- The piece of a field. -/
def piece (f : Bytes × Bytes) : Bytes := f.1 ++ equalsSign :: Percent.encode f.2

theorem fieldOf_piece {f : Bytes × Bytes} (h : Writable f) : fieldOf (piece f) = some f := by
  rw [piece, (fieldOf_value h.equalsSign).2, if_neg h.name, Percent.decode_encode]

theorem ampersand_notMem_piece {f : Bytes × Bytes} (h : Writable f) : ampersand ∉ piece f := by
  rw [piece, List.mem_append, List.mem_cons, not_or, not_or]
  exact ⟨h.ampersand, by decide, Percent.notMem_encode (by decide) (by decide) f.2⟩

/-- Every field but the first has an ampersand in front of it. -/
theorem create_cons (f : Bytes × Bytes) (fields : Header) :
    create (f :: fields) = piece f ++ fields.flatMap fun g => ampersand :: piece g := by
  have hmore : ∀ (fields : Header) (result : Bytes),
      (fields.foldl (fun (result : Bytes × Bool) field =>
        (result.1 ++ (if result.2 then [] else [ampersand]) ++ field.1
          ++ equalsSign :: Percent.encode field.2, false)) (result, false)).1
        = result ++ fields.flatMap fun g => ampersand :: piece g := by
    intro fields
    induction fields with
    | nil => simp
    | cons g fields ih =>
        intro result
        rw [List.foldl_cons, ih]
        simp [piece]
  unfold create
  rw [List.foldl_cons, hmore]
  simp [piece]

theorem intercalate_cons (x : UInt8) (first : Bytes) (rest : List Bytes) :
    [x].intercalate (first :: rest) = first ++ rest.flatMap fun piece => x :: piece := by
  induction rest generalizing first with
  | nil => simp
  | cons next rest ih =>
      rw [List.intercalate_cons_cons, ih, List.flatMap_cons]
      simp

theorem filterMap_pieces {fields : Header} (h : ∀ f ∈ fields, Writable f) :
    fields.filterMap (fieldOf ∘ piece) = fields := by
  induction fields with
  | nil => rfl
  | cons f fields ih =>
      have hf : (fieldOf ∘ piece) f = some f := fieldOf_piece (h f (by simp))
      rw [List.filterMap_cons_some hf, ih fun g hg => h g (List.mem_cons_of_mem f hg)]

/--
**What was created is read back**: every field, in its order, with its value byte for
byte; also the values that have separators, blanks or percent signs in them.
-/
theorem parse_create {fields : Header} (h : ∀ f ∈ fields, Writable f) :
    parse (create fields) = .ok fields := by
  cases fields with
  | nil => rfl
  | cons f fields =>
      have hne : create (f :: fields) ≠ [] := by
        rw [create_cons]
        simp [piece]
      have hpieces : create (f :: fields) = [ampersand].intercalate ((f :: fields).map piece) := by
        rw [create_cons, List.map_cons, intercalate_cons, List.flatMap_map]
      have hclean : ∀ p ∈ (f :: fields).map piece, ampersand ∉ p := by
        intro p hp
        obtain ⟨g, hg, rfl⟩ := List.mem_map.mp hp
        exact ampersand_notMem_piece (h g hg)
      rw [parse_of_ne_nil hne, hpieces, List.splitOn_intercalate ampersand hclean (by simp),
        List.filterMap_map]
      rw [filterMap_pieces h]

/-- Nor does a value break the line the fields stand in. -/
theorem notMem_create {b : UInt8} (hreserved : Percent.isUnreserved b = false)
    (hpercent : b ≠ percent) (hampersand : b ≠ ampersand) (hequals : b ≠ equalsSign)
    {fields : Header} (h : ∀ f ∈ fields, b ∉ f.1) : b ∉ create fields := by
  have hpiece : ∀ f ∈ fields, b ∉ piece f := by
    intro f hf
    rw [piece, List.mem_append, List.mem_cons, not_or, not_or]
    exact ⟨h f hf, hequals, Percent.notMem_encode hreserved hpercent f.2⟩
  cases fields with
  | nil => exact List.not_mem_nil
  | cons f fields =>
      rw [create_cons, List.mem_append, not_or]
      refine ⟨hpiece f (by simp), ?_⟩
      intro hmem
      obtain ⟨g, hg, hb⟩ := List.mem_flatMap.mp hmem
      rcases List.mem_cons.mp hb with rfl | hb
      · exact hampersand rfl
      · exact hpiece g (List.mem_cons_of_mem f hg) hb

end QueryString

/-- A name that stands in a query string as it is, and in the line of a request. -/
structure QueryName (name : Bytes) : Prop where
  nonempty : name ≠ []
  separators : ampersand ∉ name ∧ equalsSign ∉ name
  line : blank ∉ name ∧ lineFeed ∉ name

/--
**The fields of a query reach the server as they are**, whatever bytes their values have,
also where a value looks like a query string, or like the end of the request: it is the
same request that is read, and no byte of its content is taken for it.
-/
theorem query_fields_read {r : RequestMessage} {fields : Header}
    (hquery : r.queryString = QueryString.create fields)
    (hnames : ∀ f ∈ fields, QueryName f.1) (hmethod : blank ∉ r.method ∧ lineFeed ∉ r.method)
    (hpath : blank ∉ r.path ∧ lineFeed ∉ r.path ∧ questionMark ∉ r.path)
    (hversion : lineFeed ∉ r.version) (hheader : ∀ f ∈ r.header, HttpHeader.Writable f)
    (content : Bytes) :
    RequestMessage.parse (r.text ++ content) = .ok (some r, content)
      ∧ r.parseQueryString = .ok fields := by
  refine ⟨RequestMessage.parse_text ⟨hmethod, hpath, ?_, hversion, hheader⟩ content, ?_⟩
  · rw [hquery]
    exact ⟨QueryString.notMem_create (by decide) (by decide) (by decide) (by decide)
        fun f hf => (hnames f hf).line.1,
      QueryString.notMem_create (by decide) (by decide) (by decide) (by decide)
        fun f hf => (hnames f hf).line.2⟩
  · rw [RequestMessage.parseQueryString, hquery]
    exact QueryString.parse_create fun f hf =>
      ⟨(hnames f hf).nonempty, (hnames f hf).separators.1, (hnames f hf).separators.2⟩

/-- A value that looks like the rest of a request. -/
def splitting : Header :=
  [(utf8 "q", utf8 "a&b=c HTTP/1.1\r\n\r\nGET /%41 HTTP/1.1\r\n"), (utf8 "page", [])]

theorem query_fields_read_splitting :
    RequestMessage.parse ((⟨utf8 "GET", utf8 "/", QueryString.create splitting, utf8 "1.1", []⟩ :
        RequestMessage).text ++ [1, 2, 3])
      = .ok (some ⟨utf8 "GET", utf8 "/", QueryString.create splitting, utf8 "1.1", []⟩, [1, 2, 3])
      ∧ (⟨utf8 "GET", utf8 "/", QueryString.create splitting, utf8 "1.1", []⟩ :
        RequestMessage).parseQueryString = .ok splitting := by
  refine query_fields_read rfl ?_ (by decide +kernel) (by decide +kernel) (by decide +kernel)
    (fun f hf => absurd hf List.not_mem_nil) [1, 2, 3]
  intro f hf
  rcases List.mem_cons.mp hf with rfl | hf
  · exact ⟨by decide +kernel, by decide +kernel, by decide +kernel⟩
  · rw [List.mem_singleton.mp hf]
    exact ⟨by decide +kernel, by decide +kernel, by decide +kernel⟩

end MobaDisplay
