/-! # Revisions of the language standard -/

namespace Vhdl

inductive Standard where
  | vhdl1993
  | vhdl2008
  | vhdl2019
  deriving DecidableEq, Repr

namespace Standard

instance : Inhabited Standard := ⟨.vhdl2008⟩

def name : Standard → String
  | .vhdl1993 => "1993"
  | .vhdl2008 => "2008"
  | .vhdl2019 => "2019"

/-- A revision is named by its year, or by the last two digits of it. -/
def ofName? : String → Option Standard
  | "1993" | "93" => some .vhdl1993
  | "2008" | "08" => some .vhdl2008
  | "2019" | "19" => some .vhdl2019
  | _ => none

def render (standard : Standard) : String :=
  "VHDL-" ++ standard.name

def rank : Standard → Nat
  | .vhdl1993 => 0
  | .vhdl2008 => 1
  | .vhdl2019 => 2

def isNewerThan (a b : Standard) : Bool :=
  b.rank < a.rank

/-- Context declarations and references came with the 2008 revision. -/
def supportsContexts : Standard → Bool
  | .vhdl1993 => false
  | _ => true

/-- Conditional expressions came with the 2019 revision. -/
def supportsConditionalExpressions : Standard → Bool
  | .vhdl2019 => true
  | _ => false

end Standard

end Vhdl
