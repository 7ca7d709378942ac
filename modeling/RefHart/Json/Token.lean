import RefHart.Json.Basic

/-!
# JSON tokens

A document is read character by character by a small automaton, whose state is the part of a token
seen so far. Strings come out with their escapes resolved.
-/

namespace RefHart.Json

/-- A token of a JSON document. -/
inductive Token where
  | openArray | closeArray | openObject | closeObject | comma | colon
  /-- A string; none if its escapes leave half of a surrogate pair. -/
  | string (s : Option Text)
  /-- A number or one of the three words. -/
  | scalar (v : Json)

/-! ## Strings and scalars -/

/-- Whether a code unit is the first half of a surrogate pair. -/
def isHighSurrogate (n : Nat) : Bool := 0xD800 ≤ n && n ≤ 0xDBFF

/-- Whether a code unit is the second half of a surrogate pair. -/
def isLowSurrogate (n : Nat) : Bool := 0xDC00 ≤ n && n ≤ 0xDFFF

/-- Joins surrogate pairs in a row of code points, and fails at a half without its partner. -/
def joinSurrogates? : List Nat → Option Text
  | [] => some []
  | high :: low :: rest =>
    if isHighSurrogate high && isLowSurrogate low then
      (joinSurrogates? rest).map
        (Char.ofNat (0x10000 + (high - 0xD800) * 0x400 + (low - 0xDC00)) :: ·)
    else if isHighSurrogate high || isLowSurrogate high then none
    else (joinSurrogates? (low :: rest)).map (Char.ofNat high :: ·)
  | [n] => if isHighSurrogate n || isLowSurrogate n then none else some [Char.ofNat n]

/-- The code point of a one-character escape. -/
def escaped? : Char → Option Nat
  | '\x22' => some 0x22
  | '\x5c' => some 0x5c
  | '/' => some 0x2f
  | 'b' => some 0x08
  | 'f' => some 0x0c
  | 'n' => some 0x0a
  | 'r' => some 0x0d
  | 't' => some 0x09
  | _ => none

/-- The token of a row of letters, digits and signs. -/
def scalar? (t : Text) : Option Token :=
  if t = "true" then some (.scalar (.bool true))
  else if t = "false" then some (.scalar (.bool false))
  else if t = "null" then some (.scalar .null)
  else if isNumber t then some (.scalar (.number t))
  else none

/-- Whether a character may stand in a number or word. -/
def isScalarChar (c : Char) : Bool := c.isAlphanum || c == '+' || c == '-' || c == '.'

/-- Whether a character may stand between tokens. -/
def isSpace (c : Char) : Bool := c == ' ' || c == '\t' || c == '\n' || c == '\r'

/-- The token of a punctuation character. -/
def punctuation? : Char → Option Token
  | '[' => some .openArray
  | ']' => some .closeArray
  | '\x7b' => some .openObject
  | '\x7d' => some .closeObject
  | ',' => some .comma
  | ':' => some .colon
  | _ => none

/-! ## The automaton -/

/-- Where in a token the reading stands. Texts and code points seen are kept in reverse. -/
inductive Mode where
  | between
  | scalar (seen : Text)
  | string (seen : List Nat)
  /-- After the backslash of an escape. -/
  | escape (seen : List Nat)
  /-- In a `\u` escape of which `left` digits are still to come. -/
  | unicode (seen : List Nat) (n left : Nat)

/-- The tokens read so far, in reverse, and the state of the next one. -/
structure Scanner where
  tokens : List Token := []
  mode : Mode := .between

namespace Scanner

/-- Reads a character outside any token. -/
def start (tokens : List Token) (c : Char) : Option Scanner :=
  if isSpace c then some { tokens }
  else if c = '\x22' then some { tokens, mode := .string [] }
  else if isScalarChar c then some { tokens, mode := .scalar [c] }
  else (punctuation? c).map fun token => { tokens := token :: tokens }

/-- Reads one character. -/
def step (s : Scanner) (c : Char) : Option Scanner :=
  match s.mode with
  | .between => start s.tokens c
  | .scalar seen =>
    if isScalarChar c then some { s with mode := .scalar (c :: seen) }
    else (scalar? seen.reverse).bind fun token => start (token :: s.tokens) c
  | .string seen =>
    if c = '\x22' then some { tokens := .string (joinSurrogates? seen.reverse) :: s.tokens }
    else if c = '\x5c' then some { s with mode := .escape seen }
    else if c.toNat < 0x20 then none
    else some { s with mode := .string (c.toNat :: seen) }
  | .escape seen =>
    if c = 'u' then some { s with mode := .unicode seen 0 4 }
    else (escaped? c).map fun n => { s with mode := .string (n :: seen) }
  | .unicode seen n left =>
    (Numeral.digit? 16 c).map fun d =>
      if left ≤ 1 then { s with mode := .string ((n * 16 + d) :: seen) }
      else { s with mode := .unicode seen (n * 16 + d) (left - 1) }

/-- The tokens at the end of the document. -/
def finish (s : Scanner) : Option (List Token) :=
  match s.mode with
  | .between => some s.tokens.reverse
  | .scalar seen => (scalar? seen.reverse).map fun token => (token :: s.tokens).reverse
  | _ => none

end Scanner

/-- The tokens of a document. -/
def tokens? (t : Text) : Option (List Token) :=
  (t.foldlM Scanner.step {}).bind Scanner.finish

end RefHart.Json
