import Vhdl.Design

/-! # Predefined libraries

The packages of the libraries `std` and `ieee`, each in a virtual document of its own. A library
that already holds a unit is left alone.
-/

namespace Vhdl

/-- A use clause of a predefined package. -/
structure PredefinedUse where
  library : Identifier
  package : Identifier
  /-- Does the clause end in `all`? -/
  all : Bool := true

structure PredefinedPackage where
  ident : Identifier
  uses : List PredefinedUse := []
  hasBody : Bool := true
  doc : String

namespace PredefinedUse

def name (use : PredefinedUse) : Name :=
  let package := Name.selected (.simple use.library) use.package
  if use.all then .all package else package

end PredefinedUse

namespace Predefined

def std : Identifier := ⟨"std", by decide +kernel⟩
def ieee : Identifier := ⟨"ieee", by decide +kernel⟩

def textio : Identifier := ⟨"textio", by decide +kernel⟩
def stdLogic1164 : Identifier := ⟨"std_logic_1164", by decide +kernel⟩
def numericBit : Identifier := ⟨"numeric_bit", by decide +kernel⟩
def numericStd : Identifier := ⟨"numeric_std", by decide +kernel⟩
def mathReal : Identifier := ⟨"math_real", by decide +kernel⟩
def fixedFloatTypes : Identifier := ⟨"fixed_float_types", by decide +kernel⟩
def fixedGenericPkg : Identifier := ⟨"fixed_generic_pkg", by decide +kernel⟩
def fixedPkg : Identifier := ⟨"fixed_pkg", by decide +kernel⟩
def floatGenericPkg : Identifier := ⟨"float_generic_pkg", by decide +kernel⟩

def stdPackages : List PredefinedPackage :=
  [{ ident := ⟨"standard", by decide +kernel⟩
     hasBody := false
     doc := "Predefined types and operators (LRM 16.3)" },
   { ident := textio
     doc := "Formatted text input and output (LRM 16.4)" },
   { ident := ⟨"env", by decide +kernel⟩
     doc := "Access to the simulation environment (LRM 16.5)" }]

def ieeePackages : List PredefinedPackage :=
  [{ ident := stdLogic1164
     doc := "Multivalue logic system (IEEE 1164)" },
   { ident := ⟨"std_logic_textio", by decide +kernel⟩
     uses := [⟨std, textio, true⟩, ⟨ieee, stdLogic1164, true⟩]
     hasBody := false
     doc := "Text input and output of std_logic values" },
   { ident := ⟨"std_logic_misc", by decide +kernel⟩
     uses := [⟨ieee, stdLogic1164, true⟩]
     doc := "Miscellaneous std_logic functions" },
   { ident := numericBit
     doc := "Arithmetic on bit vectors (IEEE 1076.3)" },
   { ident := ⟨"numeric_bit_unsigned", by decide +kernel⟩
     uses := [⟨ieee, numericBit, true⟩]
     doc := "Unsigned arithmetic on bit_vector" },
   { ident := numericStd
     uses := [⟨ieee, stdLogic1164, true⟩]
     doc := "Arithmetic on std_logic vectors (IEEE 1076.3)" },
   { ident := ⟨"numeric_std_unsigned", by decide +kernel⟩
     uses := [⟨ieee, stdLogic1164, true⟩, ⟨ieee, numericStd, true⟩]
     doc := "Unsigned arithmetic on std_ulogic_vector" },
   { ident := mathReal
     doc := "Real valued mathematical functions (IEEE 1076.2)" },
   { ident := ⟨"math_complex", by decide +kernel⟩
     uses := [⟨ieee, mathReal, true⟩]
     doc := "Complex valued mathematical functions (IEEE 1076.2)" },
   { ident := fixedFloatTypes
     hasBody := false
     doc := "Rounding and overflow styles of fixed and floating point" },
   { ident := fixedGenericPkg
     uses := [⟨std, textio, true⟩, ⟨ieee, stdLogic1164, true⟩, ⟨ieee, numericStd, true⟩,
       ⟨ieee, fixedFloatTypes, true⟩]
     doc := "Generic fixed point arithmetic" },
   { ident := fixedPkg
     uses := [⟨ieee, fixedFloatTypes, true⟩, ⟨ieee, fixedGenericPkg, false⟩]
     hasBody := false
     doc := "Instance of fixed_generic_pkg with default generics" },
   { ident := floatGenericPkg
     uses := [⟨std, textio, true⟩, ⟨ieee, stdLogic1164, true⟩, ⟨ieee, numericStd, true⟩,
       ⟨ieee, fixedFloatTypes, true⟩, ⟨ieee, fixedPkg, true⟩]
     doc := "Generic floating point arithmetic" },
   { ident := ⟨"float_pkg", by decide +kernel⟩
     uses := [⟨ieee, fixedFloatTypes, true⟩, ⟨ieee, fixedPkg, true⟩,
       ⟨ieee, floatGenericPkg, false⟩]
     hasBody := false
     doc := "Instance of float_generic_pkg with default generics" }]

end Predefined

namespace PredefinedPackage

/-- The libraries that need a library clause. The library `std` needs none. -/
def libraries (package : PredefinedPackage) : List Identifier :=
  ((package.uses.map PredefinedUse.library).filter (· != Predefined.std)).eraseDups

def context (package : PredefinedPackage) : List ContextItem :=
  let clause : List ContextItem :=
    if package.libraries.isEmpty then [] else [.library (package.libraries.map ({ item := · }))]
  clause ++ package.uses.map fun use => .use [{ item := use.name }]

def document (package : PredefinedPackage) : Document where
  doc := some package.doc
  units :=
    { ident := package.ident
      context := package.context
      body := .package none []
      doc := some package.doc } ::
    if package.hasBody then [{ ident := package.ident, body := .packageBody none [] }] else []

end PredefinedPackage

namespace Design

/-- Add the documents one after the other. -/
def addDocuments (design : Design) (library : LibraryId) : List Document → Step Unit
  | [] => design.answer ()
  | document :: rest =>
    (design.addDocument document library).andThen fun _ design => design.addDocuments library rest

/-- Is there a library of that name with a unit in it? -/
def loaded? (design : Design) (name : String) : Option LibraryId :=
  (design.store.libraryNamed? name).filter fun id =>
    (design.store.library? id).any fun library => 0 < library.numUnits

def loadPredefined (design : Design) (name : String) (packages : List PredefinedPackage) :
    Step LibraryId :=
  match design.loaded? name with
  | some id => design.answer id [.debug ("Library '" ++ name ++ "' is already loaded")]
  | none =>
    (design.getOrCreateLibrary name).andThen fun id design =>
      (design.addDocuments id (packages.map PredefinedPackage.document)).andThen fun _ design =>
        design.answer id
          [.debug ("Loaded " ++ Nat.repr packages.length ++ " predefined packages into '" ++ name ++
            "'")]

def loadStd (design : Design) : Step LibraryId :=
  design.loadPredefined Predefined.std.text Predefined.stdPackages

/-- The packages of `ieee` use those of `std`, which is loaded first. -/
def loadIeee (design : Design) : Step LibraryId :=
  design.loadStd.andThen fun _ design =>
    design.loadPredefined Predefined.ieee.text Predefined.ieeePackages

end Design

end Vhdl
