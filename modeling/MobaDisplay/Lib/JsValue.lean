/-!
# The JavaScript values `JSON.parse` builds, and what a script asks of them

A number is kept as the text `String(n)` writes: that text is the same for two
numbers exactly when `===` holds of them, and reading a property, building a
selector or a label only ever uses the text.

Objects keep their own fields, each name once. No inherited member has one of the
names scripts read from parsed data (`id`, `direction` and the like), so a name
that is not a field reads as `undefined`.
-/

namespace Js

/-- A value. -/
inductive JsValue where
  | undefined
  | null
  | boolean (b : Bool)
  | number (text : String)
  | string (s : String)
  | array (items : List JsValue)
  | object (fields : List (String × JsValue))

/-- The own fields of an object. -/
abbrev Fields := List (String × JsValue)

/-- The exceptions the language itself raises. -/
inductive JsError where
  | typeError
  | referenceError (name : String)
  deriving DecidableEq

/-- The value of a field, `undefined` if there is none. -/
def Fields.field (fields : Fields) (name : String) : JsValue :=
  (fields.lookup name).getD .undefined

namespace JsValue

/-- `v.name` -/
def get : JsValue → String → Except JsError JsValue
  | undefined, _ => .error .typeError
  | null, _ => .error .typeError
  | object fields, name => .ok (Fields.field fields name)
  | _, _ => .ok undefined

/-- Whether `if (v)` takes the branch. -/
def truthy : JsValue → Bool
  | undefined => false
  | null => false
  | boolean b => b
  | number text => text != "0" && text != "NaN"
  | string s => s != ""
  | array _ => true
  | object _ => true

mutual

/-- `String(v)`: the text in a concatenation, and the key in `table[v]`. -/
def toText : JsValue → String
  | undefined => "undefined"
  | null => "null"
  | boolean true => "true"
  | boolean false => "false"
  | number text => text
  | string s => s
  | array items => ",".intercalate (elementTexts items)
  | object _ => "[object Object]"

/-- The pieces `items.join(",")` joins; `undefined` and `null` are left blank. -/
def elementTexts : List JsValue → List String
  | [] => []
  | undefined :: vs => "" :: elementTexts vs
  | null :: vs => "" :: elementTexts vs
  | v :: vs => toText v :: elementTexts vs

end

/-- `v === n` for a number written `n`. -/
def isNumber (v : JsValue) (n : String) : Bool :=
  match v with
  | number text => text == n
  | _ => false

/-- `v === s` for a text. -/
def isString (v : JsValue) (s : String) : Bool :=
  match v with
  | string t => t == s
  | _ => false

/-- What `for (let item of v)` runs over. -/
def iterate : JsValue → Except JsError (List JsValue)
  | array items => .ok items
  | string s => .ok (s.toList.map (fun c => string c.toString))
  | _ => .error .typeError

@[simp] theorem get_object (fields : Fields) (name : String) :
    (object fields).get name = .ok (fields.field name) := rfl

@[simp] theorem iterate_array (items : List JsValue) : (array items).iterate = .ok items := rfl

@[simp] theorem isNumber_number (a b : String) : (number a).isNumber b = (a == b) := rfl

@[simp] theorem isString_string (a b : String) : (string a).isString b = (a == b) := rfl

end JsValue

end Js
