import DottedNames.Text.Basic

/-!
# Elements

An element is what a line of a source file defines: a class, a function, a
constant, a method with the class it belongs to, or none of them, together
with the dotted path of the module the file is. From an element follow its
kind, its qualified path and the statement that imports it.

A constant counts only where neither a class nor a function is named. A
method is reached through its class, so the class is what gets imported.
-/

namespace DottedNames

/-- The names found on a line. -/
structure Names where
  /-- The class defined on the line, or the class a method belongs to. -/
  className : Option Text := none
  /-- The function defined on the line. -/
  functionName : Option Text := none
  /-- The word assigned to at the start of the line. -/
  constantName : Option Text := none
deriving DecidableEq, Repr

/-- Whether no name was found. -/
def Names.isEmpty (names : Names) : Bool :=
  names.className.isNone && names.functionName.isNone && names.constantName.isNone

/-- The names found on a line of a file, with the file's module path. -/
structure Element extends Names where
  /-- The dotted path of the module. -/
  modulePath : Text := []
deriving DecidableEq, Repr

/-- An element and the line it was found on, counted from zero. -/
structure Located where
  line : Int64
  element : Element
deriving DecidableEq, Repr

/-- What an element refers to. -/
inductive Kind where
  | method
  | function
  | classDefinition
  | constant
  | wholeModule
deriving DecidableEq, Repr

/-- The word for a kind. -/
def Kind.word : Kind → Text
  | method => text "method"
  | function => text "function"
  | classDefinition => text "class"
  | constant => text "constant"
  | wholeModule => text "module"

namespace Element

/-- What the element refers to; without any name it is the module itself. -/
def kind (e : Element) : Kind :=
  match e.className, e.functionName, e.constantName with
  | some _, some _, _ => .method
  | none, some _, _ => .function
  | some _, none, _ => .classDefinition
  | none, none, some _ => .constant
  | none, none, none => .wholeModule

/-- The names below the module that lead to the element. -/
def path (e : Element) : List Text :=
  match e.className, e.functionName, e.constantName with
  | some c, some f, _ => [c, f]
  | some c, none, _ => [c]
  | none, some f, _ => [f]
  | none, none, some k => [k]
  | none, none, none => []

/-- The module path and the names below it, with dots between them. -/
def qualifiedPath (e : Element) : Text := e.modulePath ++ e.path.flatMap (Byte.dot :: ·)

/-- What an import has to name; a module without names is imported whole. -/
def importedName (e : Element) : Text := e.path.headD (text "*")

/-- The statement that brings the element into scope. -/
def importStatement (e : Element) : Text :=
  text "from " ++ e.modulePath ++ text " import " ++ e.importedName

end Element

end DottedNames
