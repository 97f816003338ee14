/-! # Identifiers

A basic identifier is a letter followed by letters, digits and single underscores, and is no
reserved word; its case does not matter. An extended identifier stands between backslashes and is
compared exactly. `Identifier` holds exactly the texts without a `Fault`.
-/

namespace Vhdl

/-- The text with its ASCII letters in lower case. -/
def lower (text : String) : String :=
  String.ofList (text.toList.map Char.toLower)

/-- Words that no basic identifier may spell, in any case. -/
def reservedWords : List String :=
  ["abs", "access", "after", "alias", "all", "and", "architecture", "array", "assert", "assume",
    "attribute", "begin", "block", "body", "buffer", "bus", "case", "component", "configuration",
    "constant", "context", "cover", "default", "disconnect", "downto", "else", "elsif", "end",
    "entity", "exit", "fairness", "file", "for", "force", "function", "generate", "generic",
    "group", "guarded", "if", "impure", "in", "inertial", "inout", "is", "label", "library",
    "linkage", "literal", "loop", "map", "mod", "nand", "new", "next", "nor", "not", "null", "of",
    "on", "open", "or", "others", "out", "package", "parameter", "port", "postponed", "private",
    "procedure", "process", "property", "protected", "pure", "range", "record", "register",
    "reject", "release", "rem", "report", "restrict", "return", "rol", "ror", "select",
    "sequence", "severity", "shared", "signal", "sla", "sll", "sra", "srl", "strong", "subtype",
    "then", "to", "transport", "type", "unaffected", "units", "until", "use", "variable", "view",
    "vmode", "vprop", "vunit", "wait", "when", "while", "with", "xnor", "xor"]

def isReserved (text : String) : Bool :=
  reservedWords.contains (lower text)

namespace Identifier

/-- Why a text is no identifier. -/
inductive Fault where
  | empty
  | noLeadingLetter
  | notAlphanumeric
  | doubledUnderscore
  | trailingUnderscore
  | reserved
  | emptyExtended
  | notGraphic
  | loneBackslash
  deriving DecidableEq, Repr

def Fault.message : Fault → String
  | .empty => "identifier may not be empty"
  | .noLeadingLetter => "must start with a letter"
  | .notAlphanumeric => "may only contain letters, digits and underscores"
  | .doubledUnderscore => "may not contain consecutive underscores"
  | .trailingUnderscore => "may not end with an underscore"
  | .reserved => "reserved word"
  | .emptyExtended => "extended identifier may not be empty"
  | .notGraphic => "extended identifier may only contain graphic characters"
  | .loneBackslash => "backslash inside extended identifier must be doubled"

/-- The control characters: the first 32, delete, and the 32 that follow it. -/
def isControl (c : Char) : Bool :=
  c.toNat < 32 || (127 ≤ c.toNat && c.toNat < 160)

/-- The characters between an opening and a closing backslash. -/
def enclosed? : List Char → Option (List Char)
  | '\\' :: rest => if rest.getLast? = some '\\' then some rest.dropLast else none
  | _ => none

/-- The first fault among the characters that follow `previous` in a basic identifier. -/
def tailFault? (previous : Char) : List Char → Option Fault
  | [] => if previous = '_' then some .trailingUnderscore else none
  | c :: rest =>
    if !(c.isAlphanum || c = '_') then some .notAlphanumeric
    else if c = '_' && previous = '_' then some .doubledUnderscore
    else tailFault? c rest

/-- The first fault between the backslashes of an extended identifier. -/
def innerFault? : List Char → Option Fault
  | [] => none
  | '\\' :: '\\' :: rest => innerFault? rest
  | c :: rest =>
    if isControl c then some .notGraphic
    else if c = '\\' then some .loneBackslash
    else innerFault? rest

def basicFault? (text : String) : Option Fault :=
  match text.toList with
  | [] => some .empty
  | c :: rest =>
    if !c.isAlpha then some .noLeadingLetter
    else (tailFault? c rest).or (if isReserved text then some .reserved else none)

/-- The first fault of a text, if it is no identifier. -/
def fault? (text : String) : Option Fault :=
  match enclosed? text.toList with
  | some [] => some .emptyExtended
  | some inner => innerFault? inner
  | none => basicFault? text

end Identifier

/-- A text without fault, kept as it is written. -/
structure Identifier where
  text : String
  valid : Identifier.fault? text = none
  deriving Repr

namespace Identifier

def check (text : String) : Except Fault Identifier :=
  match h : fault? text with
  | some fault => .error fault
  | none => .ok ⟨text, h⟩

def isExtended (ident : Identifier) : Bool :=
  (enclosed? ident.text.toList).isSome

/-- The spelling that all equal identifiers share. -/
def normalized (ident : Identifier) : String :=
  if ident.isExtended then ident.text else lower ident.text

/-- Does the text, not necessarily an identifier, name the same thing? -/
def isNamed (ident : Identifier) (text : String) : Bool :=
  if ident.isExtended then ident.text = text else ident.normalized = lower text

instance : BEq Identifier where
  beq a b := a.normalized == b.normalized

end Identifier

end Vhdl
