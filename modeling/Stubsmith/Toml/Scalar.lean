import Stubsmith.Toml.Value
import Stubsmith.Text.Edges

namespace Stubsmith.Toml

def isDecimal (c : Char) : Bool := c.isDigit
def isHex (c : Char) : Bool := c.isDigit || ('a' ≤ c && c ≤ 'f') || ('A' ≤ c && c ≤ 'F')
def isOctal (c : Char) : Bool := '0' ≤ c && c ≤ '7'
def isBinary (c : Char) : Bool := c == '0' || c == '1'

/-- Digits of a kind, with single underscores between some of them. -/
def isDigits (p : Char → Bool) (cs : List Char) : Bool :=
  (Text.splitOn '_' cs).all fun run => !run.isEmpty && run.all p

def withoutUnderscores (cs : List Char) : List Char :=
  cs.filter (· != '_')

def digitsValue (base : Nat) (cs : List Char) : Nat :=
  cs.foldl (fun n c =>
    base * n + (if c.isDigit then c.toNat - 48 else c.toLower.toNat - 87)) 0

def dropSign : List Char → List Char
  | '+' :: cs => cs
  | '-' :: cs => cs
  | cs => cs

/-- Decimal digits without a needless zero in front. -/
def isPlainDecimal (cs : List Char) : Bool :=
  isDigits isDecimal cs && (cs.head? != some '0' || cs.length == 1)

/-- The first natural number that does not fit 64 bits with a sign. -/
def integerBound : Nat := 0x8000000000000000

/-- An integer in one of the four bases that fits 64 bits with its sign. -/
def isInteger (cs : List Char) : Bool :=
  match cs with
  | '0' :: 'x' :: ds => isDigits isHex ds && digitsValue 16 (withoutUnderscores ds) < integerBound
  | '0' :: 'o' :: ds => isDigits isOctal ds && digitsValue 8 (withoutUnderscores ds) < integerBound
  | '0' :: 'b' :: ds => isDigits isBinary ds && digitsValue 2 (withoutUnderscores ds) < integerBound
  | cs =>
    let n := digitsValue 10 (withoutUnderscores (dropSign cs))
    isPlainDecimal (dropSign cs) && (n < integerBound || (n == integerBound && cs.head? == some '-'))

/-- A decimal float in its parts: digits before and behind the point, and the exponent. The point
with its digits or the exponent with its letter may be missing. -/
structure FloatParts where
  whole : List Char
  fraction : List Char
  exponent : List Char

def FloatParts.of (cs : List Char) : FloatParts :=
  let isLetter (c : Char) : Bool := c == 'e' || c == 'E'
  let mantissa := cs.takeWhile (!isLetter ·)
  { whole := mantissa.takeWhile (· != '.')
    fraction := mantissa.dropWhile (· != '.')
    exponent := cs.dropWhile (!isLetter ·) }

def FloatParts.isWellFormed (f : FloatParts) : Bool :=
  isPlainDecimal f.whole && (!f.fraction.isEmpty || !f.exponent.isEmpty) &&
    (f.fraction.isEmpty || isDigits isDecimal f.fraction.tail) &&
    (f.exponent.isEmpty || isDigits isDecimal (dropSign f.exponent.tail))

/-- The digits without zeros in front. -/
def FloatParts.digits (f : FloatParts) : List Char :=
  withoutUnderscores (f.whole ++ f.fraction.tail) |>.dropWhile (· == '0')

/-- How many of the digits stand before the point once the exponent has moved it. -/
def FloatParts.magnitude (f : FloatParts) : Int :=
  let power := digitsValue 10 (withoutUnderscores (dropSign f.exponent.tail))
  f.digits.length - (withoutUnderscores f.fraction.tail).length +
    (if f.exponent.tail.head? == some '-' then -(power : Int) else power)

/-- The least number that is nearer to infinity than to any float of 64 bits. It has 309 digits. -/
def floatBound : Nat := (1 <<< 1024) - (1 <<< 970)

/-- Whether a float is too great for 64 bits. -/
def FloatParts.isTooGreat (f : FloatParts) : Bool :=
  !f.digits.isEmpty &&
    (309 < f.magnitude || (f.magnitude == 309 &&
      floatBound ≤ digitsValue 10 ((f.digits ++ List.replicate 309 '0').take 309)))

/-- A float: a fraction, an exponent or both behind decimal digits, or one of the special values.
None but negative ones may be too great. -/
def isFloat (cs : List Char) : Bool :=
  let bare := dropSign cs
  let parts := FloatParts.of bare
  bare == "inf".toList || bare == "nan".toList ||
    (parts.isWellFormed && (cs.head? == some '-' || !parts.isTooGreat))

def isTwoDigits (least most : Nat) (a b : Char) : Bool :=
  a.isDigit && b.isDigit &&
    let n := digitsValue 10 [a, b]
    least ≤ n && n ≤ most

def isLeapYear (year : Nat) : Bool :=
  year % 4 == 0 && (year % 100 != 0 || year % 400 == 0)

def daysIn (year month : Nat) : Nat :=
  if month == 2 then (if isLeapYear year then 29 else 28)
  else if [4, 6, 9, 11].contains month then 30
  else 31

def isDate : List Char → Bool
  | [y1, y2, y3, y4, '-', m1, m2, '-', d1, d2] =>
    [y1, y2, y3, y4].all (·.isDigit) && isTwoDigits 1 12 m1 m2 &&
      isTwoDigits 1 (daysIn (digitsValue 10 [y1, y2, y3, y4]) (digitsValue 10 [m1, m2])) d1 d2
  | _ => false

def isTime : List Char → Bool
  | h1 :: h2 :: ':' :: m1 :: m2 :: ':' :: s1 :: s2 :: rest =>
    isTwoDigits 0 23 h1 h2 && isTwoDigits 0 59 m1 m2 && isTwoDigits 0 60 s1 s2 &&
      match rest with
      | [] => true
      | '.' :: decimals => !decimals.isEmpty && decimals.all (·.isDigit)
      | _ => false
  | _ => false

def isOffset : List Char → Bool
  | ['Z'] | ['z'] => true
  | [sign, h1, h2, ':', m1, m2] =>
    (sign == '+' || sign == '-') && isTwoDigits 0 23 h1 h2 && isTwoDigits 0 59 m1 m2
  | _ => false

/-- A time, with or without the distance of a time zone. -/
def isZonedTime (cs : List Char) : Bool :=
  let time := cs.takeWhile fun c => c.isDigit || c == ':' || c == '.'
  isTime time && (time.length == cs.length || isOffset (cs.drop time.length))

/-- A date, a time, or a date and a time with a letter or a space between. -/
def isMoment (cs : List Char) : Bool :=
  isDate cs || isTime cs ||
    (isDate (cs.take 10) &&
      match cs.drop 10 with
      | 'T' :: time | 't' :: time | ' ' :: time => isZonedTime time
      | _ => false)

/-- A character of a word. -/
def isWordChar (c : Char) : Bool :=
  c.isAlphanum || c == '_' || c == '+' || c == '-' || c == '.' || c == ':'

/-- The characters of a word and what follows. A space belongs to it between a date and a time. -/
def word (cs : List Char) : List Char × List Char :=
  let first := cs.takeWhile isWordChar
  let rest := cs.dropWhile isWordChar
  match rest with
  | ' ' :: h1 :: h2 :: ':' :: time =>
    if isDate first && h1.isDigit && h2.isDigit then
      let later := h1 :: h2 :: ':' :: time
      (first ++ ' ' :: later.takeWhile isWordChar, later.dropWhile isWordChar)
    else (first, rest)
  | _ => (first, rest)

/-- The value that a word stands for. -/
def scalar? (cs : List Char) : Option Value :=
  if cs = "true".toList then some (.boolean true)
  else if cs = "false".toList then some (.boolean false)
  else if isInteger cs || isFloat cs then some (.number (String.ofList cs))
  else if isMoment cs then some (.moment (String.ofList cs))
  else none

end Stubsmith.Toml
