import Vhdl.Toml.Draft
import Vhdl.Toml.Scalar
import Vhdl.Toml.Text

/-! # Reading TOML documents

A document is read line by line: headers, and keys with values. Readers that call themselves take
the number of calls that are still allowed, which the length of the document bounds.
-/

namespace Vhdl

namespace Toml

/-- Arrays and inline tables nest at most this deep, and no key has more parts. -/
def maxDepth : Nat := 80

def isBareKeyChar (c : Char) : Bool :=
  c.isAlphanum || c = '_' || c = '-'

/-- One part of a key. -/
def simpleKey? (input : List Char) : Option (String × List Char) :=
  match input with
  | '"' :: _ | '\'' :: _ => lineString? input
  | _ =>
    let bare := input.takeWhile isBareKeyChar
    if bare.isEmpty then none else some (String.ofList bare, input.dropWhile isBareKeyChar)

/-- A key: its parts before the last one, and the last one. -/
structure Key where
  path : List String
  last : String

def Key.parts (key : Key) : List String :=
  key.path ++ [key.last]

/-- At most the given number of parts, joined by dots, with blanks around them. -/
def key? : Nat → List Char → Option (Key × List Char)
  | 0, _ => none
  | count + 1, input =>
    match simpleKey? (skipBlanks input) with
    | none => none
    | some (part, rest) =>
      match skipBlanks rest with
      | '.' :: rest =>
        (key? count rest).map fun (key, rest) => ({ key with path := part :: key.path }, rest)
      | rest => some (⟨[], part⟩, rest)

def isTokenChar (c : Char) : Bool :=
  c.isAlphanum || c = '_' || c = '-' || c = '+' || c = '.' || c = ':'

/-- A date may be followed by a blank and a time. -/
def token (input : List Char) : List Char × List Char :=
  let word := input.takeWhile isTokenChar
  let rest := input.dropWhile isTokenChar
  match rest with
  | ' ' :: c :: more =>
    if isDate word && c.isDigit then
      let time := (c :: more).takeWhile isTokenChar
      (word ++ ' ' :: time, (c :: more).dropWhile isTokenChar)
    else (word, rest)
  | _ => (word, rest)

mutual

/-- A value that nests at most `depth` levels deep. -/
def value? : Nat → Nat → List Char → Option (Toml × List Char)
  | 0, _, _ => none
  | fuel + 1, depth, input =>
    match depth, input with
    | _, '"' :: _ | _, '\'' :: _ =>
      (anyString? input).map fun (text, rest) => (.string text, rest)
    | depth + 1, '[' :: rest =>
      (items? fuel depth rest).map fun (items, rest) => (.array items, rest)
    | depth + 1, '\x7b' :: rest =>
      match skipBlanks rest with
      | '\x7d' :: rest => some (.table [], rest)
      | rest =>
        (pairs? fuel depth [] rest).map fun (entries, rest) => (.table entries.finish, rest)
    | _, _ =>
      let (token, rest) := token input
      (scalar? token).map fun value => (value, rest)

/-- The items of an array, after the opening bracket or a comma. -/
def items? : Nat → Nat → List Char → Option (List Toml × List Char)
  | 0, _, _ => none
  | fuel + 1, depth, input =>
    match skipFiller false input with
    | ']' :: rest => some ([], rest)
    | input =>
      match value? fuel depth input with
      | none => none
      | some (value, rest) =>
        match skipFiller false rest with
        | ']' :: rest => some ([value], rest)
        | ',' :: rest =>
          (items? fuel depth rest).map fun (items, rest) => (value :: items, rest)
        | _ => none

/-- The pairs of an inline table, after the opening brace or a comma. -/
def pairs? : Nat → Nat → Entries → List Char → Option (Entries × List Char)
  | 0, _, _, _ => none
  | fuel + 1, depth, entries, input =>
    match pair? fuel depth input with
    | none => none
    | some (key, value, rest) =>
      match entries.insertPair key.path key.last value with
      | none => none
      | some entries =>
        match skipBlanks rest with
        | '\x7d' :: rest => some (entries, rest)
        | ',' :: rest => pairs? fuel depth entries rest
        | _ => none

/-- A key, an equals sign and a value. -/
def pair? : Nat → Nat → List Char → Option (Key × Toml × List Char)
  | 0, _, _ => none
  | fuel + 1, depth, input =>
    match key? maxDepth input with
    | some (key, '=' :: rest) =>
      (value? fuel depth (skipBlanks rest)).map fun (value, rest) => (key, value, rest)
    | _ => none

end

/-- The table that lines belong to, and everything read so far. -/
structure ReaderState where
  header : List String := []
  root : Entries := []

/-- Read one line. -/
def line? (state : ReaderState) (input : List Char) : Option (ReaderState × List Char) :=
  match skipBlanks input with
  | [] => some (state, [])
  | '[' :: '[' :: rest =>
    match key? maxDepth rest with
    | some (key, ']' :: ']' :: rest) => do
      let root ← state.root.openItem key.path key.last
      let rest ← lineEnd? rest
      return (⟨key.parts, root⟩, rest)
    | _ => none
  | '[' :: rest =>
    match key? maxDepth rest with
    | some (key, ']' :: rest) => do
      let root ← state.root.openTable key.path key.last
      let rest ← lineEnd? rest
      return (⟨key.parts, root⟩, rest)
    | _ => none
  | input =>
    match lineEnd? input with
    | some rest => some (state, rest)
    | none => do
      let (key, value, rest) ← pair? (input.length + 1) maxDepth input
      let root ← state.root.insertUnder state.header key.path key.last value
      let rest ← lineEnd? rest
      return (⟨state.header, root⟩, rest)

def lines? : Nat → ReaderState → List Char → Option Entries
  | 0, _, _ => none
  | fuel + 1, state, input =>
    match line? state input with
    | none => none
    | some (state, []) => some state.root
    | some (state, rest) => lines? fuel state rest

/-- A mark of the byte order at the beginning is dropped. -/
def skipByteOrderMark : List Char → List Char
  | '\ufeff' :: rest => rest
  | input => input

end Toml

/-- Read a document. There is no table where the text is no TOML document. -/
def TomlTable.ofText? (text : String) : Option TomlTable :=
  let input := Toml.skipByteOrderMark text.toList
  (Toml.lines? (input.length + 1) {} input).map Toml.Entries.finish

end Vhdl
