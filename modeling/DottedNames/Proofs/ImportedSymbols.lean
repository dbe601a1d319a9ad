import DottedNames.Proofs.Captures

/-!
# What a path and an import have in common

The qualified path of an element and the statement that imports it choose among the
names of the element by rules of their own. The path takes the class and the function,
whichever there are, and falls back on the constant. The import takes one name, of the
class before the function before the constant. All three can be named at once, as on
the line `x = class A def f`. This file says that the two choices agree nevertheless:
the import names what comes first on the path below the module, and more than that is
on the path exactly for a method.

The two parts of the path can be told from each other, and the first can be cut off,
because a name that was found on a line has no dot in it. The module path may have any
bytes at all; it is the same in both texts and is taken off as a whole.

## Main results

* `qualifiedPath_eq`, `importedName_eq` — the two rules.
* `exists_symbol` — what they agree on, for names without dots.
* `path_and_import_name_one_symbol` — the same for every line of every document.
-/

namespace DottedNames

namespace Element

/-! ## The two rules -/

/-- A name below another, behind a dot; nothing when there is no name. -/
def behindDot (name : Option Text) : Text := name.elim [] (Byte.dot :: ·)

/-- The class and the function stand on the path, and the constant only where there is
neither. -/
theorem qualifiedPath_eq (e : Element) :
    e.qualifiedPath = e.modulePath ++ behindDot e.className ++ behindDot e.functionName ++
      if e.className = none ∧ e.functionName = none then behindDot e.constantName else [] := by
  unfold qualifiedPath path behindDot
  cases e.className with
  | some c => cases e.functionName <;> simp
  | none => cases e.functionName <;> cases e.constantName <;> simp

/-- The class is imported, or else the function, or else the constant. -/
theorem importedName_eq (e : Element) :
    e.importedName = ((e.className.or e.functionName).or e.constantName).getD (text "*") := by
  unfold importedName path
  cases e.className with
  | some c => cases e.functionName <;> rfl
  | none => cases e.functionName <;> cases e.constantName <;> rfl

theorem kind_word_eq_method_iff (e : Element) :
    e.kind.word = text "method" ↔ ∃ c f, e.className = some c ∧ e.functionName = some f := by
  have hWord : ∀ kind : Kind, kind.word = text "method" ↔ kind = .method := by
    intro kind
    cases kind <;> decide
  rw [hWord]
  unfold kind
  cases e.className <;> cases e.functionName <;> cases e.constantName <;> simp

/-! ## Agreement -/

/-- An element is reached through a symbol: the symbol is imported, it is the path below
the module except for a method, whose path goes on with one more name, and it can be cut
out of the path. -/
structure IsSymbol (e : Element) (s : Text) : Prop where
  word : IsWordText s
  imported : e.importStatement = text "from " ++ e.modulePath ++ text " import " ++ s
  /-- The path ends with the symbol except for a method. -/
  path_iff : e.qualifiedPath = e.modulePath ++ Byte.dot :: s ↔ e.kind.word ≠ text "method"
  /-- The path goes on with a name exactly for a method. -/
  method_iff : (∃ m, IsWordText m ∧ e.qualifiedPath = e.modulePath ++ Byte.dot :: s ++
    Byte.dot :: m) ↔ e.kind.word = text "method"
  /-- Without the module, the path is the symbol up to the first dot. -/
  cut : ∃ rest, Text.dropPrefix? (e.modulePath ++ [Byte.dot]) e.qualifiedPath = some rest ∧
    (Text.splitOn Byte.dot rest).head? = some s

variable {e : Element} {s m : Text}

theorem dot_not_mem_word (h : IsWordText s) : Byte.dot ∉ s := h.not_mem (by decide)

/-- A symbol at the end of the path. -/
theorem isSymbol_of_last (hWord : IsWordText s) (hImported : e.importedName = s)
    (hPath : e.qualifiedPath = e.modulePath ++ Byte.dot :: s)
    (hKind : e.kind.word ≠ text "method") : IsSymbol e s where
  word := hWord
  imported := by rw [importStatement, hImported]
  path_iff := ⟨fun _ => hKind, fun _ => hPath⟩
  method_iff := by
    refine ⟨?_, fun hMethod => absurd hMethod hKind⟩
    rintro ⟨m, -, hLonger⟩
    rw [hPath] at hLonger
    have hLength := congrArg List.length hLonger
    simp only [List.length_append, List.length_cons] at hLength
    omega
  cut := by
    refine ⟨s, ?_, ?_⟩
    · rw [Text.dropPrefix?_eq_some_iff, hPath, List.append_assoc, List.singleton_append]
    · rw [Text.splitOn_of_not_mem (dot_not_mem_word hWord), List.head?_cons]

/-- A symbol with a method below it. -/
theorem isSymbol_of_method (hWord : IsWordText s) (hName : IsWordText m)
    (hImported : e.importedName = s)
    (hPath : e.qualifiedPath = e.modulePath ++ Byte.dot :: s ++ Byte.dot :: m)
    (hKind : e.kind.word = text "method") : IsSymbol e s where
  word := hWord
  imported := by rw [importStatement, hImported]
  path_iff := by
    refine ⟨?_, fun hOther => absurd hKind hOther⟩
    intro hShorter
    rw [hPath] at hShorter
    have hLength := congrArg List.length hShorter
    simp only [List.length_append, List.length_cons] at hLength
    omega
  method_iff := ⟨fun _ => hKind, fun _ => ⟨m, hName, hPath⟩⟩
  cut := by
    refine ⟨s ++ Byte.dot :: m, ?_, ?_⟩
    · rw [Text.dropPrefix?_eq_some_iff, hPath]
      simp only [List.append_assoc, List.cons_append, List.nil_append]
    · rw [Text.splitOn_append, Text.splitOn_of_not_mem (dot_not_mem_word hWord)]
      rfl

theorem IsSymbol.unique {s t : Text} (hs : IsSymbol e s) (ht : IsSymbol e t) : s = t :=
  List.append_cancel_left (hs.imported.symm.trans ht.imported)

/-- The names of an element are words. -/
structure HasWords (e : Element) : Prop where
  className : ∀ name ∈ e.className, IsWordText name
  functionName : ∀ name ∈ e.functionName, IsWordText name
  constantName : ∀ name ∈ e.constantName, IsWordText name

/-- An element with a name is reached through one symbol. The cases are those in which the
rules choose differently: a method, a class, a function and a constant. -/
theorem exists_symbol (hWords : HasWords e) (hNamed : e.toNames.isEmpty = false) :
    ∃ s, IsSymbol e s := by
  have hPath := qualifiedPath_eq e
  have hImported := importedName_eq e
  have hKind := kind_word_eq_method_iff e
  cases hClass : e.className with
  | some c =>
      have hClassWord := hWords.className c hClass
      cases hFunction : e.functionName with
      | some f =>
          refine ⟨c, isSymbol_of_method hClassWord (hWords.functionName f hFunction) ?_ ?_ ?_⟩
          · simpa [hClass] using hImported
          · simpa [hClass, hFunction, behindDot] using hPath
          · exact hKind.2 ⟨c, f, hClass, hFunction⟩
      | none =>
          refine ⟨c, isSymbol_of_last hClassWord ?_ ?_ ?_⟩
          · simpa [hClass] using hImported
          · simpa [hClass, hFunction, behindDot] using hPath
          · simp [hKind, hFunction]
  | none =>
      cases hFunction : e.functionName with
      | some f =>
          refine ⟨f, isSymbol_of_last (hWords.functionName f hFunction) ?_ ?_ ?_⟩
          · simpa [hClass, hFunction] using hImported
          · simpa [hClass, hFunction, behindDot] using hPath
          · simp [hKind, hClass]
      | none =>
          cases hConstant : e.constantName with
          | some k =>
              refine ⟨k, isSymbol_of_last (hWords.constantName k hConstant) ?_ ?_ ?_⟩
              · simpa [hClass, hFunction, hConstant] using hImported
              · simpa [hClass, hFunction, hConstant, behindDot] using hPath
              · simp [hKind, hClass]
          | none => simp [Names.isEmpty, hClass, hFunction, hConstant] at hNamed

/-- Without a name the path is the module's and everything is imported. -/
theorem shown_of_isEmpty (h : e.toNames.isEmpty = true) :
    e.qualifiedPath = e.modulePath ∧
      e.importStatement = text "from " ++ e.modulePath ++ text " import *" := by
  simp only [Names.isEmpty, Bool.and_eq_true, Option.isNone_iff_eq_none] at h
  obtain ⟨⟨hClass, hFunction⟩, hConstant⟩ := h
  have hAll : text " import " ++ text "*" = text " import *" := by decide
  refine ⟨?_, ?_⟩
  · simp [qualifiedPath_eq, hClass, hFunction, hConstant, behindDot]
  · rw [importStatement, importedName_eq, hClass, hFunction, hConstant, List.append_assoc, ← hAll]
    rfl

end Element

/-- The names found at a line are words. -/
theorem Document.hasWords_elementAt (view : View) (doc : Document) (index : Int64) (path : Text) :
    (elementAt view doc index path).HasWords := by
  have hNames : (elementAt view doc index path).toNames = namesAtIndex doc index := rfl
  rcases namesAtIndex_cases doc index with hNone | ⟨n, hLine⟩
  · rw [hNone] at hNames
    constructor <;> simp [hNames]
  · rw [hLine] at hNames
    constructor
    · intro name hName
      rw [hNames] at hName
      exact isWordText_of_className hName
    · intro name hName
      rw [hNames] at hName
      exact isWordText_of_functionName hName
    · intro name hName
      rw [hNames] at hName
      exact isWordText_of_constantName hName

/-- The qualified path and the import statement of every element name the same symbol.
Without a name the path is the module's and everything is imported. With one, there is
exactly one symbol, a word, that the statement imports from the module and that the path
names below the module, alone or, exactly for a method, with one more word below it; and
it is what comes before the first dot when the module is taken off the path. -/
theorem path_and_import_name_one_symbol (view : View) (doc : Document) (index : Int64)
    (path : Text) :
    let e := Document.elementAt view doc index path
    (e.toNames.isEmpty = true →
        e.qualifiedPath = e.modulePath ∧
          e.importStatement = text "from " ++ e.modulePath ++ text " import *") ∧
      (e.toNames.isEmpty = false → ∃ s, e.IsSymbol s ∧ ∀ t, e.IsSymbol t → t = s) := by
  intro e
  refine ⟨Element.shown_of_isEmpty, ?_⟩
  intro hNamed
  have hWords : e.HasWords := Document.hasWords_elementAt view doc index path
  obtain ⟨s, hSymbol⟩ := Element.exists_symbol hWords hNamed
  exact ⟨s, hSymbol, fun t hOther => hOther.unique hSymbol⟩

/-- A constant, a class and a function on one line: the class is imported, and the path
goes on with the function. -/
theorem symbol_of_crowded_line :
    let e := Document.elementAt {} [text "x = class A def f"] 0 (text "/w/a.py")
    e.constantName = some (text "x") ∧ e.IsSymbol (text "A") ∧ e.kind.word = text "method" ∧
      e.qualifiedPath = text "a.A.f" := by
  intro e
  have hConstant : e.constantName = some (text "x") := by decide +kernel
  have hNamed : e.toNames.isEmpty = false := by
    simp [Names.isEmpty, hConstant]
  obtain ⟨s, hSymbol, -⟩ := (path_and_import_name_one_symbol {} _ 0 (text "/w/a.py")).2 hNamed
  have hImported : e.importStatement = text "from a import " ++ text "A" := by decide +kernel
  have hModule : text "from " ++ e.modulePath ++ text " import " = text "from a import " := by
    decide +kernel
  obtain rfl : s = text "A" := by
    apply List.append_cancel_left
    rw [← hImported, hSymbol.imported, hModule]
  exact ⟨hConstant, hSymbol, by decide +kernel, by decide +kernel⟩

end DottedNames
