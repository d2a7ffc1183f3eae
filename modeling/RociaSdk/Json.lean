import Mathlib.Algebra.Order.Ring.Unbundled.Rat

/-!
# JSON values

The values of `serde_json` as far as the server of the tests looks into documents (`tests/support/mod.rs`): their fields, which of them
are equal, and how they are ordered. The numbers, and how a value is read from bytes and written, are parameters.
-/

namespace RociaSdk

/-- `serde_json::Value`, over a type of numbers. The entries of an object come in the order of their keys. -/
inductive Value (N : Type) where
  | null
  | bool (value : Bool)
  | number (value : N)
  | string (value : String)
  | array (items : List (Value N))
  | object (entries : List (String × Value N))
deriving Repr

/-- What is used of the numbers of `serde_json`: which are equal, the number that `as_f64` gives, which is finite, and the text, which
begins with a sign or a digit. -/
structure Numbers (N : Type) where
  eq : N → N → Bool
  eq_comm : ∀ a b, eq a b = eq b a
  asF64 : N → ℚ
  text : N → String
  text_head : ∀ n, ∃ c rest, (text n).toList = c :: rest ∧ (c = '-' ∨ c.isDigit = true)

namespace Value

variable {N : Type}

/-- `Value::get`, by the name of a field. -/
def get? (value : Value N) (field : String) : Option (Value N) :=
  match value with
  | object entries => (entries.find? fun entry => entry.1 = field).map Prod.snd
  | _ => none

/-- The field of a document, `Null` if it has none. -/
def fieldOf (document : Value N) (field : String) : Value N := (document.get? field).getD null

/-! ## Equality -/

mutual

/-- `==` on values. -/
def eq (numbers : Numbers N) : Value N → Value N → Bool
  | null, null => true
  | bool a, bool b => a = b
  | number a, number b => numbers.eq a b
  | string a, string b => a = b
  | array a, array b => eqItems numbers a b
  | object a, object b => eqEntries numbers a b
  | _, _ => false

/-- `==` on the items of arrays. -/
def eqItems (numbers : Numbers N) : List (Value N) → List (Value N) → Bool
  | [], [] => true
  | a :: as, b :: bs => eq numbers a b && eqItems numbers as bs
  | _, _ => false

/-- `==` on the entries of objects. -/
def eqEntries (numbers : Numbers N) : List (String × Value N) → List (String × Value N) → Bool
  | [], [] => true
  | (k, a) :: as, (l, b) :: bs => k = l && eq numbers a b && eqEntries numbers as bs
  | _, _ => false

end

/-! ## Text -/

/-- The quotation mark. -/
def quote : Char := Char.ofNat 34

/-- The character that escapes another one. -/
def backslash : Char := Char.ofNat 92

/-- A character as it is written in a string. -/
def escaped (c : Char) : List Char :=
  if c = quote then [backslash, quote]
  else if c = backslash then [backslash, backslash]
  else if c.toNat = 8 then [backslash, 'b']
  else if c.toNat = 9 then [backslash, 't']
  else if c.toNat = 10 then [backslash, 'n']
  else if c.toNat = 12 then [backslash, 'f']
  else if c.toNat = 13 then [backslash, 'r']
  else if c.toNat < 32 then [backslash, 'u', '0', '0', Nat.digitChar (c.toNat / 16), Nat.digitChar (c.toNat % 16)]
  else [c]

/-- A string between quotes. -/
def quoted (text : String) : List Char := quote :: text.toList.flatMap escaped ++ [quote]

mutual

/-- `Value::to_string`, by its characters. -/
def text (numbers : Numbers N) : Value N → List Char
  | null => "null".toList
  | bool value => (if value then "true" else "false").toList
  | number value => (numbers.text value).toList
  | string value => quoted value
  | array items => '[' :: List.intercalate [','] (itemTexts numbers items) ++ [']']
  | object entries => Char.ofNat 123 :: List.intercalate [','] (entryTexts numbers entries) ++ [Char.ofNat 125]

/-- The texts of the items of an array. -/
def itemTexts (numbers : Numbers N) : List (Value N) → List (List Char)
  | [] => []
  | item :: items => text numbers item :: itemTexts numbers items

/-- The texts of the entries of an object. -/
def entryTexts (numbers : Numbers N) : List (String × Value N) → List (List Char)
  | [] => []
  | (key, value) :: entries => (quoted key ++ ':' :: text numbers value) :: entryTexts numbers entries

end

/-- `compare_json`: numbers by their values, strings and truth values as such, everything else by its text. -/
def compareJson (numbers : Numbers N) : Value N → Value N → Ordering
  | number left, number right => compare (numbers.asF64 left) (numbers.asF64 right)
  | string left, string right => compare left right
  | bool left, bool right => compare left right
  | left, right => compare (String.ofList (left.text numbers)) (String.ofList (right.text numbers))

end Value

/-- `serde_json`: its numbers, `from_slice` and `to_vec`. -/
structure SerdeJson (N : Type) extends Numbers N where
  fromSlice : List UInt8 → Except String (Value N)
  toVec : Value N → Except String (List UInt8)

/-- `as_object`: a payload as a value, `Null` if it cannot be read. -/
def SerdeJson.asObject {N : Type} (json : SerdeJson N) (payload : List UInt8) : Value N :=
  match json.fromSlice payload with
  | .ok value => value
  | .error _ => .null

end RociaSdk
