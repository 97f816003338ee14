/-! # Reading bytes as text

Bytes are read as UTF-8. What is no character is replaced: a sequence that starts like a character
and breaks off gives one replacement character, as does any other stray byte.
-/

namespace Vhdl.Utf8

def replacement : Char := '�'

def isBetween (low high : Nat) : Option UInt8 → Bool
  | some byte => low ≤ byte.toNat && byte.toNat ≤ high
  | none => false

def isTail (byte : Option UInt8) : Bool :=
  isBetween 0x80 0xBF byte

def tailBits (byte : Option UInt8) : Nat :=
  (byte.map UInt8.toNat).getD 0 % 64

/-- The range of the second byte of a character of three or four bytes. -/
def secondRange (lead : Nat) : Nat × Nat :=
  if lead = 0xE0 then (0xA0, 0xBF)
  else if lead = 0xED then (0x80, 0x9F)
  else if lead = 0xF0 then (0x90, 0xBF)
  else if lead = 0xF4 then (0x80, 0x8F)
  else (0x80, 0xBF)

/-- The first character of the bytes, and how many bytes it takes beyond its lead. -/
def step (lead : UInt8) (rest : List UInt8) : Char × Nat :=
  let a := lead.toNat
  let b := rest[0]?
  let c := rest[1]?
  let d := rest[2]?
  let (low, high) := secondRange a
  if a < 0x80 then (Char.ofNat a, 0)
  else if 0xC2 ≤ a ∧ a ≤ 0xDF then
    if isTail b then (Char.ofNat (a % 32 * 64 + tailBits b), 1) else (replacement, 0)
  else if 0xE0 ≤ a ∧ a ≤ 0xEF then
    if !isBetween low high b then (replacement, 0)
    else if !isTail c then (replacement, 1)
    else (Char.ofNat ((a % 16 * 64 + tailBits b) * 64 + tailBits c), 2)
  else if 0xF0 ≤ a ∧ a ≤ 0xF4 then
    if !isBetween low high b then (replacement, 0)
    else if !isTail c then (replacement, 1)
    else if !isTail d then (replacement, 2)
    else (Char.ofNat (((a % 8 * 64 + tailBits b) * 64 + tailBits c) * 64 + tailBits d), 3)
  else (replacement, 0)

def decode : List UInt8 → List Char
  | [] => []
  | lead :: rest =>
    let (char, more) := step lead rest
    char :: decode (rest.drop more)
termination_by bytes => bytes.length
decreasing_by simp only [List.length_drop, List.length_cons]; omega

/-- The bytes as text, with replacements. -/
def toText (bytes : List UInt8) : String :=
  String.ofList (decode bytes)

end Vhdl.Utf8
