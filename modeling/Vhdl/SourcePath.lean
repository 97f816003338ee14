import Vhdl.Text.Utf8

/-! # Source paths

A path is a sequence of bytes, as file systems have it. Two paths are the same when they have the
same components: repeated and trailing slashes do not count, nor does a dot that is not first.
-/

namespace Vhdl

structure SourcePath where
  bytes : List UInt8
  deriving DecidableEq, Repr

namespace SourcePath

def ofString (text : String) : SourcePath :=
  ⟨text.toUTF8.toList⟩

inductive Component where
  | root
  | here
  | name (bytes : List UInt8)
  deriving DecidableEq, Repr

def slash : UInt8 := 47

def dot : UInt8 := 46

def components (path : SourcePath) : List Component :=
  let pieces := path.bytes.splitOn slash
  let first :=
    if path.bytes.head? = some slash then [.root]
    else if pieces.head? = some [dot] then [.here]
    else []
  first ++ (pieces.filter fun piece => piece ≠ [] && piece ≠ [dot]).map .name

def same (a b : SourcePath) : Bool :=
  a.components = b.components

/-- The path as text, with replacements for what is no UTF-8. -/
def text (path : SourcePath) : String :=
  Utf8.toText path.bytes

end SourcePath

end Vhdl
