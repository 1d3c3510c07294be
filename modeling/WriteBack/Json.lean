/-!
# WriteBack.Json

JSON values as they are written. A number keeps its literal, an object keeps the order of its members and any
repetition of a key, and a string keeps its `\u` escapes: an escape stands for a 16-bit code unit, and only a
string whose units pair up has a text.
-/

namespace WriteBack

/-- An element of a JSON string: a character, or a code unit given by a `\u` escape. -/
inductive Json.Piece where
  | char (c : Char)
  | code (n : Nat)
deriving DecidableEq, Repr

/-- A JSON string. -/
abbrev Json.Text := List Json.Piece

/-- A JSON value. -/
inductive Json where
  | null
  | bool (b : Bool)
  | number (literal : List Char)
  | string (text : Json.Text)
  | array (items : List Json)
  | object (members : List (Json.Text × Json))
deriving Repr

namespace Json

/-! ## Texts -/

/-- A code unit that opens a pair. -/
def isHighSurrogate (n : Nat) : Bool := 0xD800 ≤ n && n < 0xDC00

/-- A code unit that closes a pair. -/
def isLowSurrogate (n : Nat) : Bool := 0xDC00 ≤ n && n < 0xE000

/-- The character of a pair of code units. -/
def pairChar (high low : Nat) : Char := Char.ofNat (0x10000 + (high - 0xD800) * 0x400 + (low - 0xDC00))

/-- The characters of a string; there are none if a surrogate has no partner next to it. -/
def Text.chars? : Text → Option (List Char)
  | [] => some []
  | .char c :: rest => (c :: ·) <$> chars? rest
  | .code n :: .code m :: rest =>
    if isHighSurrogate n then
      if isLowSurrogate m then (pairChar n m :: ·) <$> chars? rest else none
    else if isLowSurrogate n then none
    else (Char.ofNat n :: ·) <$> chars? (.code m :: rest)
  | .code n :: rest =>
    if isHighSurrogate n || isLowSurrogate n then none else (Char.ofNat n :: ·) <$> chars? rest

/-- The text of a string, if it has one. -/
def Text.toString? (t : Text) : Option String := String.ofList <$> t.chars?

/-- The string that writes a text without `\u` escapes. -/
def Text.ofString (s : String) : Text := s.toList.map .char

/-- A text without code units is the list of its characters. -/
theorem Text.chars?_map_char (cs : List Char) : Text.chars? (cs.map .char) = some cs := by
  induction cs with
  | nil => rfl
  | cons c cs ih => simp [Text.chars?, ih]

/-- A text is read back from the string that writes it. -/
@[simp] theorem Text.toString?_ofString (s : String) : (Text.ofString s).toString? = some s := by
  simp [toString?, ofString, chars?_map_char]

/-! ## Numbers -/

/-- The number that decimal digits write. -/
def digitsToNat (ds : List Char) : Nat := ds.foldl (fun n d => 10 * n + (d.toNat - '0'.toNat)) 0

/-- A literal without sign, fraction and exponent is a natural number. -/
def natural? : Json → Option Nat
  | .number ds => if ds.all Char.isDigit then some (digitsToNat ds) else none
  | _ => none

/-- The literal of a natural number. -/
def ofNat (n : Nat) : Json := .number (toString n).toList

/-- A string of plain characters. -/
def ofString (s : String) : Json := .string (.ofString s)

/-- An object of plain keys. -/
def ofMembers (members : List (String × Json)) : Json :=
  .object (members.map fun (k, v) => (.ofString k, v))

end Json

end WriteBack
