import Vhdl.Expr.Equal
import Vhdl.Expr.Render
import Vhdl.Name

/-! # Objects

Constants, variables, signals and files, declared on their own or in an interface list. Class and
role decide whether an object has a mode, a default value, or can be shared.
-/

namespace Vhdl

inductive ObjectClass where
  | constant
  | variable
  | signal
  | file
  deriving DecidableEq, Repr

namespace ObjectClass

def all : List ObjectClass := [.constant, .variable, .signal, .file]

def render : ObjectClass → String
  | .constant => "constant"
  | .variable => "variable"
  | .signal => "signal"
  | .file => "file"

def ofName? (text : String) : Option ObjectClass :=
  all.find? (·.render = text)

end ObjectClass

/-- The interface list that an object belongs to, if any. -/
inductive Role where
  | plain
  | generic
  | port
  | parameter
  deriving DecidableEq, Repr

namespace Role

def all : List Role := [.plain, .generic, .port, .parameter]

def render : Role → String
  | .plain => "object"
  | .generic => "generic"
  | .port => "port"
  | .parameter => "parameter"

def ofName? (text : String) : Option Role :=
  all.find? (·.render = text)

/-- Generics are constants and ports are signals. -/
def admits : Role → ObjectClass → Bool
  | .generic, kind => kind = .constant
  | .port, kind => kind = .signal
  | _, _ => true

end Role

inductive Mode where
  | input
  | output
  | inout
  | buffer
  | linkage
  deriving DecidableEq, Repr

namespace Mode

def all : List Mode := [.input, .output, .inout, .buffer, .linkage]

def render : Mode → String
  | .input => "in"
  | .output => "out"
  | .inout => "inout"
  | .buffer => "buffer"
  | .linkage => "linkage"

def ofName? (text : String) : Option Mode :=
  all.find? (·.render = text)

end Mode

structure FileOpen where
  openKind : Option Expr
  fileName : Expr
  deriving BEq

structure ObjectDecl where
  kind : ObjectClass
  role : Role
  idents : List Identifier
  indication : SubtypeIndication
  mode : Option Mode := none
  value : Option Expr := none
  shared : Bool := false
  fileOpen : Option FileOpen := none
  doc : Option String := none
  deriving BEq

namespace ObjectDecl

def isInterface (object : ObjectDecl) : Bool :=
  object.role ≠ .plain

/-- Interface objects other than files have a mode. -/
def hasMode (object : ObjectDecl) : Bool :=
  object.isInterface && object.kind ≠ .file

/-- Files and linkage objects take no default value, and of the parameters only constants and
those of mode `in` do. -/
def allowsDefault (object : ObjectDecl) : Bool :=
  object.kind ≠ .file &&
    match object.mode with
    | none => true
    | some .linkage => false
    | some mode => object.role ≠ .parameter || object.kind = .constant || mode = .input

def hasDefault (object : ObjectDecl) : Bool :=
  object.value.isSome

/-- A constant whose value is given elsewhere. -/
def isDeferred (object : ObjectDecl) : Bool :=
  object.kind = .constant && object.role = .plain && object.value.isNone

def describe (object : ObjectDecl) : String :=
  if object.isInterface then object.role.render ++ " " ++ object.kind.render
  else object.kind.render

def invalidItem (idents : List Identifier) (message : String) : Diagnostic :=
  .error (.detached (commaSeparated (idents.map Identifier.text))) message .invalidInterfaceItem

/-- Declare objects of one class. Interface objects start with mode `in`. -/
def declare (kind : ObjectClass) (role : Role) (names : List String)
    (indication : SubtypeIndication) : Except Diagnostic ObjectDecl :=
  match names.mapM Identifier.ofString with
  | .error diagnostic => .error diagnostic
  | .ok [] =>
    .error (.error (.detached "") "Object declaration without identifiers" .invalidIdentifier)
  | .ok idents =>
    if role.admits kind then
      let object : ObjectDecl := { kind, role, idents, indication }
      .ok { object with mode := if object.hasMode then some .input else none }
    else
      .error (invalidItem idents (kind.render ++ " may not be declared as a " ++ role.render))

def withMode (object : ObjectDecl) (mode : Mode) : Except Diagnostic ObjectDecl :=
  let changed := { object with mode := some mode }
  if !object.hasMode then
    .error (invalidItem object.idents (object.describe ++ " has no mode"))
  else if changed.hasDefault && !changed.allowsDefault then
    .error (invalidItem object.idents
      ("A " ++ object.kind.render ++ " of mode " ++ mode.render ++ " may not have a default value"))
  else .ok changed

def withDefault (object : ObjectDecl) (value : Expr) : Except Diagnostic ObjectDecl :=
  if object.allowsDefault then .ok { object with value := some value }
  else .error (invalidItem object.idents (object.describe ++ " may not have a default value"))

def share (object : ObjectDecl) : Except Diagnostic ObjectDecl :=
  if object.kind = .variable && !object.isInterface then .ok { object with shared := true }
  else .error (invalidItem object.idents (object.describe ++ " may not be shared"))

def withFileOpen (object : ObjectDecl) (fileOpen : FileOpen) : Except Diagnostic ObjectDecl :=
  if object.kind = .file && !object.isInterface then .ok { object with fileOpen := some fileOpen }
  else .error (invalidItem object.idents (object.describe ++ " may not have file open information"))

def withDoc (object : ObjectDecl) (doc : String) : ObjectDecl :=
  { object with doc := some doc }

def constantDecl (name : String) (indication : SubtypeIndication) : Except Diagnostic ObjectDecl :=
  declare .constant .plain [name] indication

def signalDecl (name : String) (indication : SubtypeIndication) : Except Diagnostic ObjectDecl :=
  declare .signal .plain [name] indication

def variableDecl (name : String) (indication : SubtypeIndication) : Except Diagnostic ObjectDecl :=
  declare .variable .plain [name] indication

def genericDecl (name : String) (indication : SubtypeIndication) : Except Diagnostic ObjectDecl :=
  declare .constant .generic [name] indication

def portDecl (name : String) (mode : Mode) (indication : SubtypeIndication) :
    Except Diagnostic ObjectDecl :=
  (declare .signal .port [name] indication).bind (·.withMode mode)

def renderFileOpen : Option FileOpen → String
  | none => ""
  | some ⟨none, fileName⟩ => " is " ++ fileName.render
  | some ⟨some openKind, fileName⟩ => " open " ++ openKind.render ++ " is " ++ fileName.render

def render (object : ObjectDecl) : String :=
  (if object.shared then "shared " else "") ++ object.kind.render ++ " " ++
    commaSeparated (object.idents.map Identifier.text) ++ " : " ++
    (match object.mode with
      | none => ""
      | some mode => mode.render ++ " ") ++
    object.indication.render ++ renderFileOpen object.fileOpen ++
    (match object.value with
      | none => ""
      | some value => " := " ++ value.render)

end ObjectDecl

end Vhdl
