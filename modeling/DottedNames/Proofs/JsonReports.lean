import DottedNames.Json.Normal
import DottedNames.Proofs.WrittenJson
import DottedNames.Report
import Mathlib.Data.List.Forall2

/-!
# What a JSON report says

A report in the `json` format can be read, and says of each element what there is to
say: its line counted from one, its kind, its module, its names where it has them, its
qualified path and the statement that imports it. `Describes` is one object that says
so. Where the bytes of an element are no UTF-8 they come back repaired; where they are,
they come back as they are, and then the report determines the elements.

Elements are taken here with bare fields, any four texts and any 64-bit number: a name
that is empty is an absent one.

A reporter holds the elements of the last call, and a call writes what is held. What is
written is still that of the call's own elements, whether or not the writer took what
the calls before it had to say.

## Main results

* `Json.repaired_toJson` — the members of an object that is read back.
* `Bare.describes_toJson` — they describe the element.
* `Describes.unique` — there is one element that an object describes.
* `Reporter.encode_eq_report`, `Reporter.encode_run` — a call, and a call after others.
* `json_reports_read_back` — all of it together.
-/

namespace DottedNames

/-! ## Elements with bare fields -/

/-- An element by its fields, in which an absent name is empty. -/
structure Bare where
  line : Int64
  className : Text
  functionName : Text
  constantName : Text
  modulePath : Text
deriving DecidableEq, Repr

namespace Bare

/-- The name in a field, none in an empty one. -/
def name? (field : Text) : Option Text := if field.isEmpty then none else some field

/-- The element with these fields. -/
def located (e : Bare) : Located :=
  { line := e.line
    element :=
      { className := name? e.className
        functionName := name? e.functionName
        constantName := name? e.constantName
        modulePath := e.modulePath } }

/-- The fields are well-formed UTF-8. -/
def IsValid (e : Bare) : Prop :=
  Utf8.isValid e.className = true ∧ Utf8.isValid e.functionName = true ∧
    Utf8.isValid e.constantName = true ∧ Utf8.isValid e.modulePath = true

theorem name?_inj {s t : Text} (h : name? s = name? t) : s = t := by
  unfold name? at h
  cases s <;> cases t <;> simp_all

end Bare

namespace Json

/-- The value of a member of an object. -/
def member? (key : String) : Json → Option Json
  | object members => find? (text key) members
  | _ => none

/-- The value of a whole number. -/
def whole? : Json → Option Int
  | number literal => integer? literal
  | _ => none

end Json

/-- An object says what there is to say of an element, its texts as they are shown. -/
structure Describes (shown : Text → Text) (e : Bare) (value : Json) : Prop where
  line : (value.member? "line").bind Json.whole? = some (e.line + 1).toInt
  kind : value.member? "kind" = some (.string e.located.element.kind.word)
  modulePath : value.member? "module" = some (.string (shown e.modulePath))
  className : value.member? "class" = (Bare.name? e.className).map (Json.string ∘ shown)
  functionName : value.member? "method" = (Bare.name? e.functionName).map (Json.string ∘ shown)
  constantName : value.member? "constant" = (Bare.name? e.constantName).map (Json.string ∘ shown)
  qualifiedPath : value.member? "qualifiedPath" =
    some (.string (shown e.located.element.qualifiedPath))
  importStatement : value.member? "import" =
    some (.string (shown e.located.element.importStatement))

/-! ## The members of an object -/

namespace Json

theorem find?_append (name : Text) (front back : List (Text × Json)) :
    find? name (front ++ back) = (find? name front).or (find? name back) := by
  induction front with
  | nil => rfl
  | cons member front ih =>
      obtain ⟨other, value⟩ := member
      rw [List.cons_append, find?, find?]
      split
      · rfl
      · exact ih

theorem find?_optionalMember (sought : Text) (key : String) (name : Option Text) :
    find? sought (Located.optionalMember key name) =
      if sought = text key then name.map Json.string else none := by
  cases name with
  | none => simp [Located.optionalMember, find?]
  | some name => rfl

theorem repairedMembers_append (front back : List (Text × Json)) :
    repairedMembers (front ++ back) = repairedMembers front ++ repairedMembers back := by
  simp [repairedMembers_eq]

theorem repairedMembers_optionalMember {key : String} (hKey : Utf8.repair (text key) = text key)
    (name : Option Text) :
    repairedMembers (Located.optionalMember key name) =
      Located.optionalMember key (name.map Utf8.repair) := by
  cases name with
  | none => rfl
  | some name => simp [Located.optionalMember, repairedMembers, repaired, hKey]

/-- The object of an element, with the stray bytes of its texts replaced. -/
theorem repaired_toJson (e : Located) :
    e.toJson.repaired = .object (
      [(text "line", .ofInt e.shownLine), (text "kind", .string e.element.kind.word),
        (text "module", .string (Utf8.repair e.element.modulePath))] ++
      Located.optionalMember "class" (e.element.className.map Utf8.repair) ++
      Located.optionalMember "method" (e.element.functionName.map Utf8.repair) ++
      Located.optionalMember "constant" (e.element.constantName.map Utf8.repair) ++
      [(text "qualifiedPath", .string (Utf8.repair e.element.qualifiedPath)),
        (text "import", .string (Utf8.repair e.element.importStatement))]) := by
  have hWord : ∀ kind : Kind, Utf8.repair kind.word = kind.word := by
    intro kind
    cases kind <;> decide
  have hKeys : Utf8.repair (text "line") = text "line" ∧ Utf8.repair (text "kind") = text "kind" ∧
      Utf8.repair (text "module") = text "module" ∧
      Utf8.repair (text "qualifiedPath") = text "qualifiedPath" ∧
      Utf8.repair (text "import") = text "import" := by decide
  simp only [Located.toJson, repaired, repairedMembers_append,
    repairedMembers_optionalMember (by decide : Utf8.repair (text "class") = text "class"),
    repairedMembers_optionalMember (by decide : Utf8.repair (text "method") = text "method"),
    repairedMembers_optionalMember (by decide : Utf8.repair (text "constant") = text "constant"),
    repairedMembers, hWord, hKeys, ofInt]

theorem natural?_decimal (n : Nat) : natural? (Text.decimal n) = some n := by
  obtain ⟨b, s, hLead, -⟩ := decimal_lead n
  have hSome : (Text.decimal n).isEmpty = false := by simp [hLead]
  have hDigits : (Text.decimal n).all Byte.isDigit = true :=
    List.all_eq_true.2 (Text.isDigit_of_mem_decimal n)
  simp [natural?, hSome, hDigits, digitsValue_decimal]

theorem whole?_ofInt (n : Int) : whole? (ofInt n) = some n := by
  cases n with
  | ofNat n =>
      have hNatural := natural?_decimal n
      obtain ⟨b, s, hLead, hDigit, -⟩ := decimal_lead n
      simp only [whole?, ofInt, Text.integer]
      rw [hLead] at hNatural ⊢
      simp [integer?, ne_of_isDigit hDigit (by decide : Byte.isDigit Byte.dash = false), hNatural]
  | negSucc n =>
      simp [whole?, ofInt, Text.integer, integer?, natural?_decimal, Int.negSucc_eq]

end Json

namespace Bare

/-- The object of an element that is read back describes it. -/
theorem describes_toJson (e : Bare) : Describes Utf8.repair e e.located.toJson.repaired := by
  rw [Json.repaired_toJson]
  constructor
  case line =>
    simp [Json.member?, Json.find?, Json.whole?_ofInt, Located.shownLine, located]
  all_goals
    -- each key is found where it stands, the others being different words
    simp +decide [Json.member?, Json.find?_append, Json.find?_optionalMember, Json.find?, located]

/-! ## Well-formed elements -/

theorem isValid_of_name? {field name : Text} (h : Utf8.isValid field = true)
    (hName : name? field = some name) : Utf8.isValid name = true := by
  unfold name? at hName
  split at hName
  · exact absurd hName (by simp)
  · rwa [← Option.some.inj hName]

theorem IsValid.path {e : Bare} (h : e.IsValid) :
    ∀ name ∈ e.located.element.path, Utf8.isValid name = true := by
  obtain ⟨hClass, hFunction, hConstant, -⟩ := h
  simp only [Element.path, located]
  split
  · next c f hc hf =>
      simp [isValid_of_name? hClass hc, isValid_of_name? hFunction hf]
  · next c hc _ => simp [isValid_of_name? hClass hc]
  · next f _ hf => simp [isValid_of_name? hFunction hf]
  · next k _ _ hk => simp [isValid_of_name? hConstant hk]
  · simp

theorem IsValid.qualifiedPath {e : Bare} (h : e.IsValid) :
    Utf8.isValid e.located.element.qualifiedPath = true := by
  refine Utf8.isValid_append h.2.2.2 (Utf8.isValid_flatMap fun name hName => ?_)
  exact @Utf8.isValid_append [Byte.dot] _ (by decide) (h.path name hName)

theorem IsValid.importStatement {e : Bare} (h : e.IsValid) :
    Utf8.isValid e.located.element.importStatement = true := by
  have hImported : Utf8.isValid e.located.element.importedName = true := by
    unfold Element.importedName
    have hPath := h.path
    cases hNames : e.located.element.path with
    | nil => decide
    | cons name names => exact hPath name (by simp [hNames])
  exact Utf8.isValid_append
    (Utf8.isValid_append (Utf8.isValid_append (by decide) h.2.2.2) (by decide)) hImported

end Bare

namespace Describes

/-- Well-formed texts are shown as they are. -/
theorem of_isValid {e : Bare} {value : Json} (h : Describes Utf8.repair e value)
    (hValid : e.IsValid) : Describes id e value := by
  have hName : ∀ {field : Text}, Utf8.isValid field = true →
      (Bare.name? field).map (Json.string ∘ Utf8.repair) =
        (Bare.name? field).map (Json.string ∘ id) := by
    intro field hField
    refine Option.map_congr fun name hSome => ?_
    simp [Utf8.repair_of_isValid (Bare.isValid_of_name? hField hSome)]
  obtain ⟨hClass, hFunction, hConstant, hModule⟩ := id hValid
  exact {
    line := h.line
    kind := h.kind
    modulePath := by rw [h.modulePath, Utf8.repair_of_isValid hModule, id]
    className := h.className.trans (hName hClass)
    functionName := h.functionName.trans (hName hFunction)
    constantName := h.constantName.trans (hName hConstant)
    qualifiedPath := by rw [h.qualifiedPath, Utf8.repair_of_isValid hValid.qualifiedPath, id]
    importStatement := by
      rw [h.importStatement, Utf8.repair_of_isValid hValid.importStatement, id] }

/-- There is one element that an object describes. -/
theorem unique {e other : Bare} {value : Json} (h : Describes id e value)
    (hOther : Describes id other value) : e = other := by
  have hName : ∀ {s t : Text}, (Bare.name? s).map (Json.string ∘ id) =
      (Bare.name? t).map (Json.string ∘ id) → s = t := by
    intro s t hSame
    refine Bare.name?_inj (Option.map_injective ?_ hSame)
    exact fun a b hString => Json.string.inj hString
  have hLine : e.line = other.line := by
    have hSame : (e.line + 1).toInt = (other.line + 1).toInt :=
      Option.some.inj (h.line.symm.trans hOther.line)
    exact (Int64.add_left_inj 1).1 (Int64.toInt_inj.1 hSame)
  have hModule : e.modulePath = other.modulePath :=
    Json.string.inj (Option.some.inj (h.modulePath.symm.trans hOther.modulePath))
  have hClass := hName (h.className.symm.trans hOther.className)
  have hFunction := hName (h.functionName.symm.trans hOther.functionName)
  have hConstant := hName (h.constantName.symm.trans hOther.constantName)
  obtain ⟨line, className, functionName, constantName, modulePath⟩ := e
  simp_all

end Describes

/-! ## Reports -/

namespace Bare

/-- The text of a report in the `json` format. -/
def report (elements : List Bare) : Text := Format.json.report (elements.map located)

theorem readable_toJson (e : Located) (levels : Nat) : Json.Readable (levels + 1) e.toJson := by
  refine .object fun member hMember => ?_
  have hOptional : ∀ key name, member ∈ Located.optionalMember key name →
      Json.Readable levels member.2 := by
    intro key name h
    cases name with
    | none => exact absurd h (by simp [Located.optionalMember])
    | some name =>
        rw [List.mem_singleton.1 h]
        exact .string name
  simp only [List.mem_append, List.mem_cons, List.not_mem_nil, or_false] at hMember
  rcases hMember with ((((rfl | rfl | rfl) | h) | h) | h) | rfl | rfl
  · exact .whole _
  · exact .string _
  · exact .string _
  · exact hOptional _ _ h
  · exact hOptional _ _ h
  · exact hOptional _ _ h
  · exact .string _
  · exact .string _

theorem readable_report (elements : List Bare) :
    Json.Readable Json.maxDepth (.array ((elements.map located).map Located.toJson)) := by
  refine .array fun item hItem => ?_
  obtain ⟨e, -, rfl⟩ := List.mem_map.1 hItem
  exact readable_toJson e _

/-- A report is well-formed UTF-8. -/
theorem isValid_report (elements : List Bare) : Utf8.isValid (report elements) = true :=
  (readable_report elements).isValid_indentedAt 0

/-- A report is read as an array with the object of each element. -/
theorem parse_report (elements : List Bare) :
    Json.parse (report elements) =
      some (.array (elements.map fun e => e.located.toJson.repaired)) := by
  have hParse : Json.parse (report elements) = _ := Json.parse_indented (readable_report elements)
  rw [hParse, Json.repaired, Json.repairedItems_eq, List.map_map, List.map_map]
  rfl

/-- A report of well-formed elements determines them. -/
theorem report_inj {elements others : List Bare} (h : ∀ e ∈ elements, e.IsValid)
    (hOthers : ∀ e ∈ others, e.IsValid) (hSame : report elements = report others) :
    elements = others := by
  have hDescribe : ∀ {es : List Bare}, (∀ e ∈ es, e.IsValid) →
      List.Forall₂ (Describes id) es (es.map fun e => e.located.toJson.repaired) := by
    intro es hValid
    rw [List.forall₂_map_right_iff, List.forall₂_same]
    exact fun e he => e.describes_toJson.of_isValid (hValid e he)
  have hObjects : elements.map (fun e => e.located.toJson.repaired) =
      others.map fun e => e.located.toJson.repaired := by
    have hParse := (parse_report elements).symm.trans (hSame ▸ parse_report others)
    exact Json.array.inj (Option.some.inj hParse)
  have hUnique : Relator.LeftUnique (Describes id) := fun _ _ _ => Describes.unique
  exact List.left_unique_forall₂' hUnique (hObjects ▸ hDescribe h) (hDescribe hOthers)

end Bare

/-! ## Calls on one reporter -/

/-- A call on a reporter: the elements to report, and whether the writer takes what it is
handed. -/
structure Call where
  elements : List Bare
  accepted : Bool

namespace Reporter

/-- A call done in place: the elements are held, and what is held is written. -/
def encode (r : Reporter) (call : Call) : Text × Reporter :=
  let next := { r with held := call.elements.map Bare.located }
  let ending := match r.format with
    | .json => [Byte.newline]
    | .line => []
  (if call.accepted then next.current ++ ending else [], next)

/-- The reporter after some calls. -/
def run (r : Reporter) (calls : List Call) : Reporter :=
  calls.foldl (fun r call => (r.encode call).2) r

/-- A call that is taken is the report of its elements. -/
theorem encode_eq_report (r : Reporter) (elements : List Bare) :
    r.encode ⟨elements, true⟩ = r.report (elements.map Bare.located) := by
  cases hFormat : r.format <;>
    simp [encode, report, Format.written, current, hFormat]

theorem format_run (r : Reporter) (calls : List Call) : (r.run calls).format = r.format := by
  induction calls generalizing r with
  | nil => rfl
  | cons call calls ih => exact ih (r.encode call).2

/-- After any calls, what a call writes is the report of its own elements. -/
theorem encode_run {r : Reporter} (hFormat : r.format = .json) (earlier : List Call)
    (call : Call) :
    ((r.run earlier).encode call).1 =
      if call.accepted then Bare.report call.elements ++ [Byte.newline] else [] := by
  simp [encode, current, format_run, hFormat, Bare.report]

end Reporter

/-- A report in the `json` format is well-formed UTF-8, and is read as an array with an
object for each element, in order, that describes the element: with its texts repaired,
whatever bytes they have, and with its very texts where they are well-formed UTF-8. Two
lists of such elements with the same report are the same. And what a call on a reporter
writes is the report of the elements of that call, whatever the calls before it were and
whether or not the writer took what they wrote. -/
theorem json_reports_read_back :
    (∀ elements : List Bare,
      Utf8.isValid (Bare.report elements) = true ∧
      ∃ objects, Json.parse (Bare.report elements) = some (.array objects) ∧
        List.Forall₂ (fun e object => Describes Utf8.repair e object ∧
          (e.IsValid → Describes id e object)) elements objects) ∧
    (∀ elements others : List Bare, (∀ e ∈ elements, e.IsValid) → (∀ e ∈ others, e.IsValid) →
      Bare.report elements = Bare.report others → elements = others) ∧
    ∀ (held : List Located) (earlier : List Call) (call : Call),
      ((Reporter.run { format := .json, held } earlier).encode call).1 =
        if call.accepted then Bare.report call.elements ++ [Byte.newline] else [] := by
  refine ⟨fun elements => ⟨Bare.isValid_report elements, _, Bare.parse_report elements, ?_⟩,
    fun elements others => Bare.report_inj, fun held => Reporter.encode_run rfl⟩
  rw [List.forall₂_map_right_iff, List.forall₂_same]
  exact fun e _ => ⟨e.describes_toJson, e.describes_toJson.of_isValid⟩

/-- A method whose names need escapes, on the last line there is. -/
def awkward : Bare :=
  { line := 0x7fffffffffffffff
    className := text "a\\"
    functionName := text "<\n\u2028é"
    constantName := []
    modulePath := text "m" }

/-- It is read back as it is, its line wrapped around, and no other element is written
like it. -/
theorem json_report_of_awkward :
    (∃ object, Json.parse (Bare.report [awkward]) = some (.array [object]) ∧
      Describes id awkward object) ∧
    ∀ e : Bare, e.IsValid → Bare.report [e] = Bare.report [awkward] → e = awkward := by
  have hValid : awkward.IsValid := by
    refine ⟨?_, ?_, ?_, ?_⟩ <;> decide
  obtain ⟨-, objects, hParse, hDescribe⟩ := json_reports_read_back.1 [awkward]
  refine ⟨?_, fun e he hSame => ?_⟩
  · obtain ⟨object, rest, hObject, hRest, rfl⟩ := List.forall₂_cons_left_iff.1 hDescribe
    obtain rfl := List.forall₂_nil_left_iff.1 hRest
    exact ⟨object, hParse, hObject.2 hValid⟩
  · have hList := json_reports_read_back.2.1 [e] [awkward] (by simpa using he)
      (by simpa using hValid) hSame
    simpa using hList

end DottedNames
