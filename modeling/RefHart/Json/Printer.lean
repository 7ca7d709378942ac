import RefHart.Json.Basic

/-!
# Printing JSON documents

The indented form: two blanks to a level, one item or member to a line, and empty arrays and objects
without a line break. Strings are written as they are but for quotes, backslashes and the characters
below U+0020.
-/

namespace RefHart.Json

/-- A character of a string. -/
def escape (c : Char) : Text :=
  match c with
  | '\x22' => ['\x5c', '\x22']
  | '\x5c' => ['\x5c', '\x5c']
  | '\x08' => ['\x5c', 'b']
  | '\x0c' => ['\x5c', 'f']
  | '\n' => ['\x5c', 'n']
  | '\r' => ['\x5c', 'r']
  | '\t' => ['\x5c', 't']
  | _ => if c.toNat < 0x20 then ['\x5c', 'u'] ++ Numeral.hex 4 c.toNat else [c]

/-- A string in quotes. -/
def quote (t : Text) : Text := '\x22' :: (t.flatMap escape ++ ['\x22'])

/-- The start of a line at a level. -/
def newline (level : Nat) : Text := '\n' :: List.replicate (2 * level) ' '

mutual

/-- A value whose first line starts at the given level. -/
def pretty (level : Nat) : Json → Text
  | .null => "null"
  | .unpaired => "null"
  | .bool true => "true"
  | .bool false => "false"
  | .number literal => literal
  | .string s => quote s
  | .array [] => "[]"
  | .array (item :: items) =>
    '[' :: (newline (level + 1) ++ pretty (level + 1) item ++ prettyItems (level + 1) items ++
      newline level ++ [']'])
  | .object [] => "\x7b\x7d"
  | .object ((key, v) :: members) =>
    '\x7b' :: (newline (level + 1) ++ quote key ++ [':', ' '] ++ pretty (level + 1) v ++
      prettyMembers (level + 1) members ++ newline level ++ ['\x7d'])

/-- The items after the first one. -/
def prettyItems (level : Nat) : List Json → Text
  | [] => []
  | item :: items => ',' :: (newline level ++ pretty level item ++ prettyItems level items)

/-- The members after the first one. -/
def prettyMembers (level : Nat) : List (Text × Json) → Text
  | [] => []
  | (key, v) :: members =>
    ',' :: (newline level ++ quote key ++ [':', ' '] ++ pretty level v ++
      prettyMembers level members)

end

end RefHart.Json
