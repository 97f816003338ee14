import Vhdl.Text.Case

/-! # Lower case of texts

Characters are mapped one by one, with two exceptions: a capital I with a dot keeps the dot as a
mark of its own, and a capital sigma has another lower case at the end of a word.
-/

namespace Vhdl.Text

/-- Does a cased character come first once ignorable characters are passed over? -/
def startsCased (chars : List Char) : Bool :=
  (chars.dropWhile isCaseIgnorable).head?.any isCased

/-- The lower case of the characters that follow those in `before`, the nearest one first. -/
def lowerChars (before : List Char) : List Char → List Char
  | [] => []
  | c :: rest =>
    let lowered :=
      if c = 'Σ' then
        [if startsCased before && !startsCased rest then 'ς' else 'σ']
      else if c = 'İ' then ['i', '\u0307']
      else [lowerChar c]
    lowered ++ lowerChars (c :: before) rest

def lowercase (text : String) : String :=
  String.ofList (lowerChars [] text.toList)

end Vhdl.Text
