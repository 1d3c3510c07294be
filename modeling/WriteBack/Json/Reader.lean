import WriteBack.Json

/-!
# WriteBack.Json.Reader

Reads JSON text strictly: one value with blanks around it, no comments, no trailing commas, no leading zeros,
no raw control characters in strings.

The reader is a machine that takes one character at a time. Its mode says what may come next, and its stack
holds the arrays and objects that are still open, innermost first; nesting is bounded by nothing but the text.
`parse` folds the machine over the text.
-/

namespace WriteBack.Json

/-- An open array or object that waits for a value; what it holds already is latest first. -/
inductive Frame where
  | array (items : List Json)
  | object (members : List (Text × Json)) (key : Text)
deriving Repr

/-- The last part of a number that was read. -/
inductive NumberPart where
  | minus
  | zero
  | integer
  | point
  | fraction
  | exponent
  | exponentSign
  | exponentDigits
deriving DecidableEq, Repr

/-- What a string is read for. -/
inductive Target where
  | value
  /-- The key of a member, after these ones. -/
  | key (members : List (Text × Json))
deriving Repr

/-- What may come next. -/
inductive Mode where
  | value
  /-- A value or the end of an empty array. -/
  | arrayStart
  /-- A comma or the end of an array. -/
  | arrayRest (items : List Json)
  /-- A key or the end of an empty object. -/
  | objectStart
  /-- A key. -/
  | member (members : List (Text × Json))
  | colon (members : List (Text × Json)) (key : Text)
  /-- A comma or the end of an object. -/
  | objectRest (members : List (Text × Json))
  /-- The rest of the word that stands for a value. -/
  | word (rest : List Char) (value : Json)
  /-- More of a number, or what follows it; the characters so far are latest first. -/
  | number (part : NumberPart) (literal : List Char)
  /-- More of a string, latest unit first. -/
  | text (target : Target) (units : Text)
  /-- The character after a backslash. -/
  | escape (target : Target) (units : Text)
  /-- This many more digits of a code unit. -/
  | hex (target : Target) (units : Text) (left : Nat) (code : Nat)
  /-- Nothing but blanks: the value is complete. -/
  | closed (value : Json)
deriving Repr

/-- The state of the reader. -/
structure Reader where
  mode : Mode := .value
  stack : List Frame := []
deriving Repr

/-! ## Characters -/

/-- The characters that may stand between tokens. -/
def isBlank (c : Char) : Bool := c == ' ' || c == '\t' || c == '\n' || c == '\r'

/-- The value of a hexadecimal digit. -/
def hexDigit? (c : Char) : Option Nat :=
  if c.isDigit then some (c.toNat - '0'.toNat)
  else if 'a' ≤ c ∧ c ≤ 'f' then some (c.toNat - 'a'.toNat + 10)
  else if 'A' ≤ c ∧ c ≤ 'F' then some (c.toNat - 'A'.toNat + 10)
  else none

/-- The character that a backslash and this one stand for. -/
def escaped? : Char → Option Char
  | '"' => some '"'
  | '\\' => some '\\'
  | '/' => some '/'
  | 'b' => some '\x08'
  | 'f' => some '\x0c'
  | 'n' => some '\n'
  | 'r' => some '\r'
  | 't' => some '\t'
  | _ => none

namespace NumberPart

/-- How a number goes on with a character. -/
def next? (part : NumberPart) (c : Char) : Option NumberPart :=
  let digit := c.isDigit
  let mark := c == 'e' || c == 'E'
  match part with
  | .minus => if c == '0' then some .zero else if digit then some .integer else none
  | .zero => if c == '.' then some .point else if mark then some .exponent else none
  | .integer =>
    if digit then some .integer
    else if c == '.' then some .point
    else if mark then some .exponent
    else none
  | .point => if digit then some .fraction else none
  | .fraction => if digit then some .fraction else if mark then some .exponent else none
  | .exponent =>
    if digit then some .exponentDigits
    else if c == '+' || c == '-' then some .exponentSign
    else none
  | .exponentSign | .exponentDigits => if digit then some .exponentDigits else none

/-- A number may end after this part. -/
def mayEnd : NumberPart → Bool
  | .zero | .integer | .fraction | .exponentDigits => true
  | .minus | .point | .exponent | .exponentSign => false

end NumberPart

/-! ## The machine -/

namespace Reader

/-- A complete value goes to the innermost open array or object. -/
def complete (v : Json) : List Frame → Reader
  | [] => ⟨.closed v, []⟩
  | .array items :: stack => ⟨.arrayRest (v :: items), stack⟩
  | .object members key :: stack => ⟨.objectRest ((key, v) :: members), stack⟩

/-- A string is complete. -/
def completeText (target : Target) (units : Text) (stack : List Frame) : Reader :=
  match target with
  | .value => complete (.string units.reverse) stack
  | .key members => ⟨.colon members units.reverse, stack⟩

/-- The first character of a value. -/
def start? (c : Char) (stack : List Frame) : Option Reader :=
  match c with
  | '{' => some ⟨.objectStart, stack⟩
  | '[' => some ⟨.arrayStart, stack⟩
  | '"' => some ⟨.text .value [], stack⟩
  | 't' => some ⟨.word ['r', 'u', 'e'] (.bool true), stack⟩
  | 'f' => some ⟨.word ['a', 'l', 's', 'e'] (.bool false), stack⟩
  | 'n' => some ⟨.word ['u', 'l', 'l'] .null, stack⟩
  | '-' => some ⟨.number .minus ['-'], stack⟩
  | '0' => some ⟨.number .zero ['0'], stack⟩
  | c => if c.isDigit then some ⟨.number .integer [c], stack⟩ else none

/-- A character after a complete value: a blank, a comma, or the end of the array or object. -/
def follow? (r : Reader) (c : Char) : Option Reader :=
  if isBlank c then some r
  else match r.mode with
    | .arrayRest items =>
      match c with
      | ',' => some ⟨.value, .array items :: r.stack⟩
      | ']' => some (complete (.array items.reverse) r.stack)
      | _ => none
    | .objectRest members =>
      match c with
      | ',' => some ⟨.member members, r.stack⟩
      | '}' => some (complete (.object members.reverse) r.stack)
      | _ => none
    | _ => none

/-- One character. -/
def step (r : Reader) (c : Char) : Option Reader :=
  match r.mode with
  | .value => if isBlank c then some r else start? c r.stack
  | .arrayStart =>
    if isBlank c then some r
    else if c == ']' then some (complete (.array []) r.stack)
    else start? c (.array [] :: r.stack)
  | .objectStart =>
    if isBlank c then some r
    else if c == '}' then some (complete (.object []) r.stack)
    else if c == '"' then some ⟨.text (.key []) [], r.stack⟩
    else none
  | .member members =>
    if isBlank c then some r
    else if c == '"' then some ⟨.text (.key members) [], r.stack⟩
    else none
  | .colon members key =>
    if isBlank c then some r
    else if c == ':' then some ⟨.value, .object members key :: r.stack⟩
    else none
  | .word [] _ => none
  | .word (d :: rest) v =>
    if c != d then none
    else if rest.isEmpty then some (complete v r.stack)
    else some ⟨.word rest v, r.stack⟩
  | .number part literal =>
    match part.next? c with
    | some part => some ⟨.number part (c :: literal), r.stack⟩
    | none =>
      if part.mayEnd then (complete (.number literal.reverse) r.stack).follow? c else none
  | .text target units =>
    if c == '"' then some (completeText target units r.stack)
    else if c == '\\' then some ⟨.escape target units, r.stack⟩
    else if c.toNat < 0x20 then none
    else some ⟨.text target (.char c :: units), r.stack⟩
  | .escape target units =>
    if c == 'u' then some ⟨.hex target units 4 0, r.stack⟩
    else (escaped? c).map fun d => ⟨.text target (.char d :: units), r.stack⟩
  | .hex target units left code =>
    (hexDigit? c).map fun d =>
      let code := 16 * code + d
      if left ≤ 1 then ⟨.text target (.code code :: units), r.stack⟩
      else ⟨.hex target units (left - 1) code, r.stack⟩
  | .arrayRest _ | .objectRest _ | .closed _ => r.follow? c

/-- The value that was read, once the text ends. -/
def finish? (r : Reader) : Option Json :=
  match r.mode, r.stack with
  | .closed v, _ => some v
  | .number part literal, [] => if part.mayEnd then some (.number literal.reverse) else none
  | _, _ => none

end Reader

/-- The value of a JSON text. -/
def parse? (text : List Char) : Option Json :=
  (text.foldlM Reader.step {}).bind Reader.finish?

end WriteBack.Json
