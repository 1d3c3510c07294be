import WriteBack.Json

/-!
# WriteBack.Json.Printer

Writes JSON values: on one line without blanks, or with one member or element per line, indented by two
blanks for each level.
-/

namespace WriteBack.Json

/-- Four hexadecimal digits of a code unit. -/
def hexCode (n : Nat) : List Char :=
  [n / 0x1000, n / 0x100, n / 0x10, n].map fun d => Nat.digitChar (d % 16)

/-- A character inside a string. -/
def quoteChar (c : Char) : List Char :=
  match c with
  | '"' => ['\\', '"']
  | '\\' => ['\\', '\\']
  | '\x08' => ['\\', 'b']
  | '\x0c' => ['\\', 'f']
  | '\n' => ['\\', 'n']
  | '\r' => ['\\', 'r']
  | '\t' => ['\\', 't']
  | c => if c.toNat < 0x20 then '\\' :: 'u' :: hexCode c.toNat else [c]

/-- An element of a string. -/
def Piece.write : Piece → List Char
  | .char c => quoteChar c
  | .code n => '\\' :: 'u' :: hexCode n

/-- A string with its quotes. -/
def Text.write (t : Text) : List Char := '"' :: t.flatMap Piece.write ++ ['"']

mutual

/-- A value on one line, without blanks. -/
def compact : Json → List Char
  | .null => ['n', 'u', 'l', 'l']
  | .bool true => ['t', 'r', 'u', 'e']
  | .bool false => ['f', 'a', 'l', 's', 'e']
  | .number literal => literal
  | .string t => t.write
  | .array items => '[' :: compactItems items ++ [']']
  | .object members => '{' :: compactMembers members ++ ['}']

/-- The elements of an array, with commas between them. -/
def compactItems : List Json → List Char
  | [] => []
  | [v] => compact v
  | v :: w :: rest => compact v ++ ',' :: compactItems (w :: rest)

/-- The members of an object, with commas between them. -/
def compactMembers : List (Text × Json) → List Char
  | [] => []
  | [(k, v)] => k.write ++ ':' :: compact v
  | (k, v) :: m :: rest => k.write ++ ':' :: compact v ++ ',' :: compactMembers (m :: rest)

end

/-- A line break and the blanks of a level. -/
def lineBreak (level : Nat) : List Char := '\n' :: List.replicate (2 * level) ' '

mutual

/-- A value with one member or element per line, inside `level` open arrays and objects. -/
def pretty (level : Nat) : Json → List Char
  | .null => ['n', 'u', 'l', 'l']
  | .bool true => ['t', 'r', 'u', 'e']
  | .bool false => ['f', 'a', 'l', 's', 'e']
  | .number literal => literal
  | .string t => t.write
  | .array [] => ['[', ']']
  | .array (v :: rest) => '[' :: prettyItems (level + 1) (v :: rest) ++ lineBreak level ++ [']']
  | .object [] => ['{', '}']
  | .object (m :: rest) => '{' :: prettyMembers (level + 1) (m :: rest) ++ lineBreak level ++ ['}']

/-- The elements of an array, each on a line of its own. -/
def prettyItems (level : Nat) : List Json → List Char
  | [] => []
  | [v] => lineBreak level ++ pretty level v
  | v :: w :: rest => lineBreak level ++ pretty level v ++ ',' :: prettyItems level (w :: rest)

/-- The members of an object, each on a line of its own. -/
def prettyMembers (level : Nat) : List (Text × Json) → List Char
  | [] => []
  | [(k, v)] => lineBreak level ++ k.write ++ ':' :: ' ' :: pretty level v
  | (k, v) :: m :: rest =>
    lineBreak level ++ k.write ++ ':' :: ' ' :: pretty level v ++ ',' :: prettyMembers level (m :: rest)

end

end WriteBack.Json
