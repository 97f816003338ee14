import Vhdl.Binary64
import Vhdl.Toml

/-! # TOML numbers, booleans and dates

A token is a run of characters without blanks or punctuation. Between digits there may be single
underscores. Integers have 64 bits and floats are doubles. Dates and times have to exist in the
calendar.
-/

namespace Vhdl.Toml

/-- Digits with single underscores between them. -/
def isGrouped (isDigit : Char → Bool) : List Char → Bool
  | [] => false
  | [c] => isDigit c
  | c :: '_' :: rest => isDigit c && isGrouped isDigit rest
  | c :: rest => isDigit c && isGrouped isDigit rest

/-- Digits with underscores, the first one no zero unless it is the only one. -/
def isDecimal (digits : List Char) : Bool :=
  isGrouped Char.isDigit digits && (digits.length = 1 || digits.head? ≠ some '0')

/-- The token without its sign, and whether the sign is a minus. -/
def splitSign : List Char → Bool × List Char
  | '+' :: rest => (false, rest)
  | '-' :: rest => (true, rest)
  | token => (false, token)

def digitValue (c : Char) : Nat :=
  if c.isDigit then c.toNat - '0'.toNat
  else if 'a' ≤ c then c.toNat - 'a'.toNat + 10
  else c.toNat - 'A'.toNat + 10

def numberValue (base : Nat) (digits : List Char) : Nat :=
  (digits.filter (· ≠ '_')).foldl (fun number c => number * base + digitValue c) 0

def isHexDigit (c : Char) : Bool :=
  c.isDigit || ('a' ≤ c && c ≤ 'f') || ('A' ≤ c && c ≤ 'F')

def isOctalDigit (c : Char) : Bool :=
  '0' ≤ c && c ≤ '7'

def isBinaryDigit (c : Char) : Bool :=
  c = '0' || c = '1'

/-- An integer that fits into 64 bits. -/
def bounded (value : Int) : Option Int :=
  if Int64.minValue.toInt ≤ value && value ≤ Int64.maxValue.toInt then some value else none

def basedInteger? (base : Nat) (isDigit : Char → Bool) (digits : List Char) : Option Int :=
  if isGrouped isDigit digits then bounded (numberValue base digits) else none

def integer? : List Char → Option Int
  | '0' :: 'x' :: digits => basedInteger? 16 isHexDigit digits
  | '0' :: 'o' :: digits => basedInteger? 8 isOctalDigit digits
  | '0' :: 'b' :: digits => basedInteger? 2 isBinaryDigit digits
  | token =>
    let (negative, digits) := splitSign token
    if isDecimal digits then
      let value : Int := numberValue 10 digits
      bounded (if negative then -value else value)
    else none

def isExponentMark (c : Char) : Bool :=
  c = 'e' || c = 'E'

/-- The digits of a fraction, given with its point. -/
def fraction? : List Char → Option (List Char)
  | [] => some []
  | _ :: digits => if isGrouped Char.isDigit digits then some digits else none

/-- The value of an exponent, given with its mark. -/
def exponent? : List Char → Option Int
  | [] => some 0
  | _ :: exponent =>
    let (negative, digits) := splitSign exponent
    let value : Int := numberValue 10 digits
    if isGrouped Char.isDigit digits then some (if negative then -value else value) else none

/-- The decimal that a float without sign spells. A fraction or an exponent or both follow its
integral part. -/
def decimal? (digits : List Char) : Option Decimal :=
  let mantissa := digits.takeWhile (!isExponentMark ·)
  let integral := mantissa.takeWhile (· ≠ '.')
  match fraction? (mantissa.dropWhile (· ≠ '.')),
    exponent? (digits.dropWhile (!isExponentMark ·)) with
  | some fraction, some exponent =>
    if digits.any (fun c => c = '.' || isExponentMark c) && isDecimal integral then
      let places := (fraction.filter (· ≠ '_')).length
      some ⟨numberValue 10 (integral ++ fraction), exponent - places⟩
    else none
  | _, _ => none

/-- Is the token a float? Only `inf` may spell an infinite one. -/
def isFloat (token : List Char) : Bool :=
  let digits := (splitSign token).2
  digits = ['i', 'n', 'f'] || digits = ['n', 'a', 'n'] ||
    (decimal? digits).any fun d => !Binary64.overflows d

def isLeapYear (year : Nat) : Bool :=
  year % 4 = 0 && (year % 100 ≠ 0 || year % 400 = 0)

def daysInMonth (year month : Nat) : Nat :=
  match month with
  | 2 => if isLeapYear year then 29 else 28
  | 4 | 6 | 9 | 11 => 30
  | _ => 31

/-- The number that two digits stand for. -/
def twoDigits? (a b : Char) : Option Nat :=
  if a.isDigit && b.isDigit then some (digitValue a * 10 + digitValue b) else none

/-- Is the token the date of a day, such as `1987-07-05`? -/
def isDate : List Char → Bool
  | [y₁, y₂, y₃, y₄, '-', m₁, m₂, '-', d₁, d₂] =>
    match twoDigits? y₁ y₂, twoDigits? y₃ y₄, twoDigits? m₁ m₂, twoDigits? d₁ d₂ with
    | some century, some year, some month, some day =>
      1 ≤ month && month ≤ 12 && 1 ≤ day && day ≤ daysInMonth (century * 100 + year) month
    | _, _, _, _ => false
  | _ => false

/-- The fraction of a second. -/
def isFraction : List Char → Bool
  | [] => true
  | '.' :: digits => !digits.isEmpty && digits.all Char.isDigit
  | _ => false

/-- Is the token a time of day? A minute may have a leap second. -/
def isTime : List Char → Bool
  | h₁ :: h₂ :: ':' :: m₁ :: m₂ :: ':' :: s₁ :: s₂ :: fraction =>
    match twoDigits? h₁ h₂, twoDigits? m₁ m₂, twoDigits? s₁ s₂ with
    | some hour, some minute, some second =>
      hour ≤ 23 && minute ≤ 59 && second ≤ 60 && isFraction fraction
    | _, _, _ => false
  | _ => false

/-- Is the token an offset from universal time, after its sign? -/
def isOffset : List Char → Bool
  | [h₁, h₂, ':', m₁, m₂] =>
    match twoDigits? h₁ h₂, twoDigits? m₁ m₂ with
    | some hour, some minute => hour ≤ 23 && minute ≤ 59
    | _, _ => false
  | _ => false

def isZone : List Char → Bool
  | [] | ['Z'] | ['z'] => true
  | '+' :: offset | '-' :: offset => isOffset offset
  | _ => false

def isZoneMark (c : Char) : Bool :=
  c = 'Z' || c = 'z' || c = '+' || c = '-'

/-- A time of day with a zone or without one. -/
def isZonedTime (token : List Char) : Bool :=
  isTime (token.takeWhile (!isZoneMark ·)) && isZone (token.dropWhile (!isZoneMark ·))

def isDatetime (token : List Char) : Bool :=
  isTime token || isDate token ||
    (isDate (token.take 10) &&
      match token.drop 10 with
      | c :: time => (c = 'T' || c = 't' || c = ' ') && isZonedTime time
      | [] => false)

/-- The value of a token. -/
def scalar? (token : List Char) : Option Toml :=
  if token = ['t', 'r', 'u', 'e'] then some (.boolean true)
  else if token = ['f', 'a', 'l', 's', 'e'] then some (.boolean false)
  else
    match integer? token with
    | some value => some (.integer value)
    | none =>
      if isFloat token then some (.float (String.ofList token))
      else if isDatetime token then some (.datetime (String.ofList token))
      else none

end Vhdl.Toml
