import DottedNames.Project
import DottedNames.Source.Attribution

/-!
# Elements of a document

The element at a line joins the names found there with the module path of the
file. The outline of a document lists the lines that define something, in
document order, and locates the project once for all of them.
-/

namespace DottedNames

namespace Document

/-- The element at a line of the document stored at a path. -/
def elementAt (view : View) (doc : Document) (line : Int64) (path : Text) : Element :=
  { toNames := namesAtIndex doc line, modulePath := Project.modulePathOf view path }

/-- The lines on which something is defined, with their elements. -/
def outline (view : View) (doc : Document) (path : Text) : List Located :=
  let modulePath := Project.modulePathOf view path
  (List.range doc.length).filterMap fun n =>
    let names := namesAt doc n
    if names.isEmpty then none
    else some { line := Int64.ofNat n, element := { toNames := names, modulePath } }

end Document

end DottedNames
