import Vhdl.Store

/-! # Visibility

A unit sees the libraries and packages that its context clause names. Its own library, which is also
called `work`, and the library `std` are visible without a clause. Of two entries with one name the
first one counts.
-/

namespace Vhdl

structure VisibleLibrary where
  /-- The normalized name under which the library is visible. -/
  name : String
  id : LibraryId
  /-- Is the library visible by a library clause? -/
  explicit : Bool
  deriving DecidableEq, Repr

structure Visibility where
  libraries : List VisibleLibrary := []
  /-- The visible packages by their normalized names. -/
  packages : List (String × UnitId) := []
  deriving DecidableEq, Repr

namespace Visibility

def library? (visibility : Visibility) (name : String) : Option LibraryId :=
  (visibility.libraries.find? (·.name = name)).map VisibleLibrary.id

def package? (visibility : Visibility) (name : String) : Option UnitId :=
  (visibility.packages.find? (·.1 = name)).map (·.2)

def addLibrary (visibility : Visibility) (library : VisibleLibrary) : Visibility :=
  if (visibility.library? library.name).isSome then visibility
  else { visibility with libraries := visibility.libraries ++ [library] }

def addPackage (visibility : Visibility) (package : String × UnitId) : Visibility :=
  if (visibility.package? package.1).isSome then visibility
  else { visibility with packages := visibility.packages ++ [package] }

/-- What a unit of the library sees without any clause. -/
def implicit (store : Store) (library : Library) : Visibility :=
  let own := (({} : Visibility).addLibrary ⟨library.ident.normalized, library.id, false⟩).addLibrary
    ⟨"work", library.id, false⟩
  match store.libraryNamed? "std" with
  | some id => own.addLibrary ⟨"std", id, false⟩
  | none => own

/-- The visible libraries without repetition. -/
def libraryIds (visibility : Visibility) : List LibraryId :=
  (visibility.libraries.map VisibleLibrary.id).eraseDups

/-- Add what the clauses of a context make visible. -/
def merge (visibility context : Visibility) : Visibility :=
  context.packages.foldl addPackage
    ((context.libraries.filter VisibleLibrary.explicit).foldl addLibrary visibility)

end Visibility

end Vhdl
