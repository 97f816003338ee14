import Vhdl.Diagnostic
import Vhdl.Expr

/-! # Selected names

A dotted text is cut at the dots outside backslashes. The last of several segments may be `all`.
-/

namespace Vhdl.Name

/-- The segment up to the first dot outside backslashes, and the segments after it. -/
def cutDots (inside : Bool) : List Char → List Char × List (List Char)
  | [] => ([], [])
  | c :: rest =>
    if c = '.' && !inside then
      let (segment, others) := cutDots inside rest
      ([], segment :: others)
    else
      let (segment, others) := cutDots (inside != (c == '\\')) rest
      (c :: segment, others)

/-- Append segments to a name from left to right. -/
def select (base : Name) : List String → Except Diagnostic Name
  | [] => .ok base
  | [last] =>
    if lower last = "all" then .ok (.all base)
    else (Identifier.ofString last).map (.selected base)
  | segment :: next :: rest =>
    match Identifier.ofString segment with
    | .error diagnostic => .error diagnostic
    | .ok ident => select (.selected base ident) (next :: rest)

def ofDotted (text : String) : Except Diagnostic Name :=
  let (first, rest) := cutDots false text.toList
  match Identifier.ofString (String.ofList first) with
  | .error diagnostic => .error diagnostic
  | .ok ident => select (.simple ident) (rest.map String.ofList)

/-- The identifiers of a simple or selected name, and whether it ends in `all`. -/
def segments? : Name → Option (List Identifier × Bool)
  | .simple ident => some ([ident], false)
  | .selected base ident =>
    match base.segments? with
    | some (idents, false) => some (idents ++ [ident], false)
    | _ => none
  | .all base =>
    match base.segments? with
    | some (idents, false) => some (idents, true)
    | _ => none
  | _ => none

/-- The last identifier of a simple or selected name. -/
def suffix? : Name → Option Identifier
  | .simple ident | .selected _ ident => some ident
  | _ => none

/-- The bases of a name from the longest to the shortest. -/
def bases : Name → List Name
  | .simple _ => []
  | .selected base _ | .all base | .slice base _ | .attribute base _ _ | .call base _ =>
    base :: base.bases

def isSelected : Name → Bool
  | .selected _ _ | .all _ => true
  | _ => false

end Vhdl.Name
