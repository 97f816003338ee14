/-! # TOML texts

The parts of a TOML document that are not values: blanks, line ends, comments, and strings, which
are written in four ways. Each reader gives what it read and what is left.
-/

namespace Vhdl.Toml

def isBlank (c : Char) : Bool :=
  c = ' ' || c = '\t'

/-- Control characters other than tabs stand in no comment and no string. -/
def isTextual (c : Char) : Bool :=
  c = '\t' || (0x20 ≤ c.toNat && c.toNat ≠ 0x7f)

def skipBlanks (input : List Char) : List Char :=
  input.dropWhile isBlank

def newline? : List Char → Option (List Char)
  | '\n' :: rest => some rest
  | '\r' :: '\n' :: rest => some rest
  | _ => none

/-- Drop blanks and a comment. -/
def skipComment (input : List Char) : List Char :=
  match skipBlanks input with
  | '#' :: rest => rest.dropWhile isTextual
  | rest => rest

/-- The rest of a line after its last item: blanks, a comment, and the end of the line or of the
input. -/
def lineEnd? (input : List Char) : Option (List Char) :=
  match skipComment input with
  | [] => some []
  | rest => newline? rest

/-- Drop blanks, line ends and comments. -/
def skipFiller (comment : Bool) : List Char → List Char
  | [] => []
  | '\n' :: rest => skipFiller false rest
  | '\r' :: '\n' :: rest => skipFiller false rest
  | c :: rest =>
    if comment then
      if isTextual c then skipFiller true rest else c :: rest
    else if isBlank c then skipFiller false rest
    else if c = '#' then skipFiller true rest
    else c :: rest

def hexValue? (c : Char) : Option Nat :=
  if '0' ≤ c && c ≤ '9' then some (c.toNat - '0'.toNat)
  else if 'a' ≤ c && c ≤ 'f' then some (c.toNat - 'a'.toNat + 10)
  else if 'A' ≤ c && c ≤ 'F' then some (c.toNat - 'A'.toNat + 10)
  else none

/-- The character of a code point given by hexadecimal digits. Surrogates are no characters. -/
def codePoint? (digits : List Char) : Option Char :=
  match digits.mapM hexValue? with
  | none => none
  | some values =>
    let code := values.foldl (fun code value => code * 16 + value) 0
    if code.isValidChar then some (Char.ofNat code) else none

/-- The character of an escape of one letter. -/
def simpleEscape? : Char → Option Char
  | 'b' => some '\x08'
  | 't' => some '\t'
  | 'n' => some '\n'
  | 'f' => some '\x0c'
  | 'r' => some '\r'
  | '"' => some '"'
  | '\\' => some '\\'
  | _ => none

/-- Put a character in front of what was read. -/
def consRead (c : Char) (read : Option (List Char × List Char)) : Option (List Char × List Char) :=
  read.map fun (text, rest) => (c :: text, rest)

/-- A character in front, if there is one. -/
def consRead? (c : Option Char) (read : Option (List Char × List Char)) :
    Option (List Char × List Char) :=
  c.bind fun c => consRead c read

/-- A string in quotation marks, after the opening mark. -/
def basicString : List Char → Option (List Char × List Char)
  | '"' :: rest => some ([], rest)
  | '\\' :: 'u' :: a :: b :: c :: d :: rest =>
    consRead? (codePoint? [a, b, c, d]) (basicString rest)
  | '\\' :: 'U' :: a :: b :: c :: d :: e :: f :: g :: h :: rest =>
    consRead? (codePoint? [a, b, c, d, e, f, g, h]) (basicString rest)
  | '\\' :: c :: rest => consRead? (simpleEscape? c) (basicString rest)
  | c :: rest => if isTextual c then consRead c (basicString rest) else none
  | [] => none

/-- A string in apostrophes, after the opening one. -/
def literalString : List Char → Option (List Char × List Char)
  | '\'' :: rest => some ([], rest)
  | c :: rest => if isTextual c then consRead c (literalString rest) else none
  | [] => none

/-- Where a string over several lines is being read. -/
inductive LineState where
  | text
  /-- After a backslash at the end of a line, before the line ends. -/
  | lineEnd
  /-- After such a line, where blanks and further line ends are dropped. -/
  | trim
  deriving DecidableEq, Repr

/-- A string in three quotation marks, after the opening marks. Two marks may stand right before
the closing ones. Line ends are kept as they are written. -/
def multilineBasic : LineState → List Char → Option (List Char × List Char)
  | .lineEnd, '\n' :: rest => multilineBasic .trim rest
  | .lineEnd, '\r' :: '\n' :: rest => multilineBasic .trim rest
  | .lineEnd, c :: rest => if isBlank c then multilineBasic .lineEnd rest else none
  | .trim, '\n' :: rest => multilineBasic .trim rest
  | .trim, '\r' :: '\n' :: rest => multilineBasic .trim rest
  | .trim, ' ' :: rest => multilineBasic .trim rest
  | .trim, '\t' :: rest => multilineBasic .trim rest
  | _, '"' :: '"' :: '"' :: '"' :: '"' :: rest => some (['"', '"'], rest)
  | _, '"' :: '"' :: '"' :: '"' :: rest => some (['"'], rest)
  | _, '"' :: '"' :: '"' :: rest => some ([], rest)
  | _, '\\' :: 'u' :: a :: b :: c :: d :: rest =>
    consRead? (codePoint? [a, b, c, d]) (multilineBasic .text rest)
  | _, '\\' :: 'U' :: a :: b :: c :: d :: e :: f :: g :: h :: rest =>
    consRead? (codePoint? [a, b, c, d, e, f, g, h]) (multilineBasic .text rest)
  | _, '\\' :: '\n' :: rest => multilineBasic .trim rest
  | _, '\\' :: '\r' :: '\n' :: rest => multilineBasic .trim rest
  | _, '\\' :: c :: rest =>
    if isBlank c then multilineBasic .lineEnd rest
    else consRead? (simpleEscape? c) (multilineBasic .text rest)
  | _, '\n' :: rest => consRead '\n' (multilineBasic .text rest)
  | _, '\r' :: '\n' :: rest => consRead '\r' (consRead '\n' (multilineBasic .text rest))
  | _, c :: rest => if isTextual c then consRead c (multilineBasic .text rest) else none
  | _, [] => none

/-- A string in three apostrophes, after the opening ones. -/
def multilineLiteral : List Char → Option (List Char × List Char)
  | '\'' :: '\'' :: '\'' :: '\'' :: '\'' :: rest => some (['\'', '\''], rest)
  | '\'' :: '\'' :: '\'' :: '\'' :: rest => some (['\''], rest)
  | '\'' :: '\'' :: '\'' :: rest => some ([], rest)
  | '\n' :: rest => consRead '\n' (multilineLiteral rest)
  | '\r' :: '\n' :: rest => consRead '\r' (consRead '\n' (multilineLiteral rest))
  | c :: rest => if isTextual c then consRead c (multilineLiteral rest) else none
  | [] => none

/-- A line end right after the opening marks does not belong to the string. -/
def dropFirstNewline (input : List Char) : List Char :=
  (newline? input).getD input

/-- A string on one line, at its opening mark. -/
def lineString? : List Char → Option (String × List Char)
  | '"' :: rest => (basicString rest).map fun (text, rest) => (String.ofList text, rest)
  | '\'' :: rest => (literalString rest).map fun (text, rest) => (String.ofList text, rest)
  | _ => none

/-- A string of any kind, at its opening mark. -/
def anyString? : List Char → Option (String × List Char)
  | '"' :: '"' :: '"' :: rest =>
    (multilineBasic .text (dropFirstNewline rest)).map fun (text, rest) =>
      (String.ofList text, rest)
  | '\'' :: '\'' :: '\'' :: rest =>
    (multilineLiteral (dropFirstNewline rest)).map fun (text, rest) => (String.ofList text, rest)
  | input => lineString? input

end Vhdl.Toml
