import MobaDisplay.Lib.CxxLine
import MobaDisplay.Lib.CxxUnsigned
import MobaDisplay.Server.Response

/-!
# `Percent` and `QueryString`

The text behind the question mark of a request, in both directions. `create` writes the
fields of a map one after the other, `parse` cuts the text at positions it remembers from
its way through it. Both are `noexcept`; what a cut out of range would throw is kept here.
-/

namespace MobaDisplay

open Cxx

def percent : UInt8 := 37

def plus : UInt8 := 43

def ampersand : UInt8 := 38

def equalsSign : UInt8 := 61

namespace Percent

/-- The characters that stay as they are. -/
def isUnreserved (chr : UInt8) : Bool :=
  (48 ≤ chr && chr ≤ 57) || (65 ≤ chr && chr ≤ 90) || (97 ≤ chr && chr ≤ 122)
    || chr == 45 || chr == 46 || chr == 95 || chr == 126

def hexChars : Bytes := utf8 "0123456789ABCDEF"

/-- `"%" + hex_chars[chr >> 4] + hex_chars[chr & 15]` -/
def escape (chr : UInt8) : Bytes :=
  [percent, hexChars.getD (chr >>> 4).toNat 0, hexChars.getD (chr &&& 15).toNat 0]

/-- `Percent::encode(value)` -/
def encode (value : Bytes) : Bytes :=
  value.flatMap fun chr => if isUnreserved chr then [chr] else escape chr

/-- `Percent::decode(value)`; whatever stands behind a `%`, two characters are taken. -/
def decode : Bytes → Bytes
  | [] => []
  | [chr] => if chr = plus then [blank] else [chr]
  | [chr, a] => (if chr = plus then [blank] else [chr]) ++ decode [a]
  | chr :: a :: b :: rest =>
      if chr = percent then UInt8.ofInt (strtol16 [a, b]) :: decode rest
      else (if chr = plus then [blank] else [chr]) ++ decode (a :: b :: rest)

end Percent

namespace QueryString

/-- `QueryString::create(fields)`, with the fields in the order of the map. -/
def create (fields : Header) : Bytes :=
  (fields.foldl (fun (result : Bytes × Bool) field =>
    (result.1 ++ (if result.2 then [] else [ampersand]) ++ field.1
      ++ equalsSign :: Percent.encode field.2, false)) ([], true)).1

/-- What `parse` remembers on its way; `none` is `npos`. -/
structure Position where
  namePos : Nat
  nameEndPos : Option Nat
  valuePos : Option Nat
  deriving DecidableEq

/-- The field that ends at `c`, in front of an ampersand. -/
def fieldBefore (queryString : Bytes) (p : Position) (c : Nat) : Except Exception Header := do
  let name ← substr queryString p.namePos (sizeSub (p.nameEndPos.getD c) p.namePos)
  if name ≠ [] then
    let value ← match p.valuePos with
      | none => pure []
      | some valuePos => substr queryString valuePos (sizeSub c valuePos)
    return [(name, Percent.decode value)]
  else
    return []

/-- The value that ends with the text; `npos` is behind every text. -/
def valueAtEnd (queryString : Bytes) : Option Nat → Except Exception Bytes
  | none => return []
  | some valuePos =>
      if queryString.length ≤ valuePos then return [] else substrFrom queryString valuePos

/-- The field that ends with the text. -/
def fieldAtEnd (queryString : Bytes) (p : Position) : Except Exception Header := do
  if p.namePos < queryString.length then
    let name ← match p.nameEndPos with
      | none => substrFrom queryString p.namePos
      | some nameEndPos => substr queryString p.namePos (sizeSub nameEndPos p.namePos)
    if name ≠ [] then
      let value ← valueAtEnd queryString p.valuePos
      return [(name, Percent.decode value)]
    else
      return []
  else
    return []

/-- The loop from position `c` on, and what stands behind it. -/
def parseLoop (queryString : Bytes) : Bytes → Nat → Position → Except Exception Header
  | [], _, p => fieldAtEnd queryString p
  | chr :: rest, c, p =>
      if chr = ampersand then do
        let field ← fieldBefore queryString p c
        let fields ← parseLoop queryString rest (c + 1) ⟨c + 1, none, none⟩
        return field ++ fields
      else if chr = equalsSign ∧ p.nameEndPos = none then
        parseLoop queryString rest (c + 1) { p with nameEndPos := some c, valuePos := some (c + 1) }
      else
        parseLoop queryString rest (c + 1) p

/-- `QueryString::parse(query_string)`: the fields, in the order they were found. -/
def parse (queryString : Bytes) : Except Exception Header :=
  if queryString = [] then return []
  else parseLoop queryString queryString 0 ⟨0, none, none⟩

end QueryString

end MobaDisplay
