import RefHart.Text.Numeral

/-!
# JSON values

The values of JSON documents. A number is kept as it is written, so that no reader of a document
depends on a rounding.
-/

namespace RefHart

/-- A JSON value. -/
inductive Json where
  | null
  | bool (b : Bool)
  | number (literal : Text)
  | string (s : Text)
  | array (items : List Json)
  | object (members : List (Text × Json))
  /-- A string with half of a surrogate pair, or an object with such a key: well formed, but no
  text is denoted. -/
  | unpaired

namespace Json

/-- A natural number as a value. -/
def ofNat (n : Nat) : Json := .number (Numeral.decimal n)

/-- An integer as a value. -/
def ofInt (i : Int) : Json := .number (Numeral.signedDecimal i)

/-! ## The grammar of numbers -/

/-- Whether a text is one or more decimal digits. -/
def areDigits (t : Text) : Bool := t != [] && t.all (Numeral.isDigit 10)

/-- Whether a text is an exponent, or empty. -/
def isExponent : Text → Bool
  | [] => true
  | e :: rest =>
    (e == 'e' || e == 'E') && areDigits (match rest with
      | '+' :: digits => digits
      | '-' :: digits => digits
      | digits => digits)

/-- Whether a text is a fraction and an exponent, each of which may be absent. -/
def isFraction : Text → Bool
  | '.' :: rest =>
    areDigits (rest.takeWhile (Numeral.isDigit 10)) &&
      isExponent (rest.dropWhile (Numeral.isDigit 10))
  | rest => isExponent rest

/-- Whether a text is a number without its sign: an integer part without leading zeros, then a
fraction and an exponent. -/
def isMagnitude (t : Text) : Bool :=
  let whole := t.takeWhile (Numeral.isDigit 10)
  areDigits whole && (whole.head? != some '0' || whole.length == 1) &&
    isFraction (t.dropWhile (Numeral.isDigit 10))

/-- Whether a text is a number. -/
def isNumber : Text → Bool
  | '-' :: rest => isMagnitude rest
  | t => isMagnitude t

end Json

end RefHart
