/-!
# Byte texts

Every text this library handles, a line of source, a path, a message, is a
sequence of bytes. Nothing promises that the bytes are well-formed UTF-8:
file names and file contents come from a disk, and a column is an offset in
bytes. So `Text` is the list of bytes, and the rules of the library are
recursions on that list.

This module holds the carrier, the byte classes that several rules share, and
the handful of list operations the rest is written with: cutting at a
separator (`splitOn`), joining (`join`), and taking a known beginning or end
away (`dropPrefix?`, `trimSuffix`).

## Main results

* `splitOn_ne_nil`, `length_splitOn` — cutting a text always leaves at least one part,
  and one more than there are separators.
* `join_splitOn` — joining the parts with the separator gives the text back.
* `splitOn_join` — parts without the separator are the cuts of their joining.
* `dropPrefix?_eq_some_iff` — what is left after a beginning is taken away.
* `trimSuffix_append`, `trimSuffix_of_not_suffix` — an ending is taken away exactly
  when it is there.
-/

namespace DottedNames

/-- A sequence of bytes, not necessarily well-formed UTF-8. -/
abbrev Text := List UInt8

/-- The UTF-8 bytes of a string; used to write fixed words and messages. -/
def text (s : String) : Text := s.toList.flatMap String.utf8EncodeChar

namespace Byte

abbrev tab : UInt8 := 0x09
abbrev newline : UInt8 := 0x0a
abbrev formFeed : UInt8 := 0x0c
abbrev carriageReturn : UInt8 := 0x0d
abbrev space : UInt8 := 0x20
abbrev doubleQuote : UInt8 := 0x22
abbrev percent : UInt8 := 0x25
abbrev dash : UInt8 := 0x2d
abbrev dot : UInt8 := 0x2e
abbrev slash : UInt8 := 0x2f
abbrev colon : UInt8 := 0x3a
abbrev equals : UInt8 := 0x3d
abbrev backslash : UInt8 := 0x5c

/-- The digits `0` to `9`. -/
def isDigit (b : UInt8) : Bool := 0x30 ≤ b && b ≤ 0x39

/-- The letters `A` to `Z`. -/
def isUpper (b : UInt8) : Bool := 0x41 ≤ b && b ≤ 0x5a

/-- The letters `a` to `z`. -/
def isLower (b : UInt8) : Bool := 0x61 ≤ b && b ≤ 0x7a

/-- ASCII letters and digits. -/
def isAlnum (b : UInt8) : Bool := isDigit b || isUpper b || isLower b

/-- The bytes an identifier is made of: ASCII letters, digits and underscore. -/
def isWord (b : UInt8) : Bool := isAlnum b || b == 0x5f

/-- The bytes that separate words on a line: tab, newline, form feed, carriage
return and space. Vertical tab is not one of them. -/
def isGap (b : UInt8) : Bool :=
  b == tab || b == newline || b == formFeed || b == carriageReturn || b == space

/-- Maps `A` to `Z` to the small letter and keeps every other byte. -/
def toLower (b : UInt8) : UInt8 := if isUpper b then b + 0x20 else b

/-- The value of a hexadecimal digit of either case. -/
def hexValue? (b : UInt8) : Option Nat :=
  if isDigit b then some (b.toNat - 0x30)
  else if 0x61 ≤ b && b ≤ 0x66 then some (b.toNat - 0x57)
  else if 0x41 ≤ b && b ≤ 0x46 then some (b.toNat - 0x37)
  else none

/-- The small hexadecimal digit of a value below 16. -/
def hexDigit (n : Nat) : UInt8 :=
  if n < 10 then (0x30 + n).toUInt8 else (0x57 + n).toUInt8

end Byte

namespace Text

/-- Cuts a text at every occurrence of a separator byte. The parts are the
stretches between separators, so there is one part more than separators. -/
def splitOn (sep : UInt8) : Text → List Text
  | [] => [[]]
  | b :: s =>
    if b = sep then [] :: splitOn sep s
    else match splitOn sep s with
      | [] => [[b]]
      | part :: parts => (b :: part) :: parts

/-- The parts in order with a separator between neighbours. -/
def join (sep : Text) : List Text → Text
  | [] => []
  | [part] => part
  | part :: next :: parts => part ++ sep ++ join sep (next :: parts)

/-- What follows a given beginning, when the text has it. -/
def dropPrefix? : Text → Text → Option Text
  | [], s => some s
  | _ :: _, [] => none
  | p :: ps, b :: s => if p = b then dropPrefix? ps s else none

/-- Takes a given ending away once, when the text has it. -/
def trimSuffix (suffix s : Text) : Text :=
  if suffix.isSuffixOf s then s.take (s.length - suffix.length) else s

/-- Cuts a text around the first byte that satisfies a test: the stretch
before it, and what follows it when there is one. -/
def cutAt (p : UInt8 → Bool) : Text → Text × Option Text
  | [] => ([], none)
  | b :: s =>
    if p b then ([], some s)
    else
      let (before, after) := cutAt p s
      (b :: before, after)

/-- Cuts a text around the last occurrence of a byte, when there is one. -/
def cutLast? (sep : UInt8) (s : Text) : Option (Text × Text) :=
  match (splitOn sep s).reverse with
  | last :: front :: rest => some (join [sep] (front :: rest).reverse, last)
  | _ => none

/-- Whether a text comes before another in the order of bytes; a beginning
comes before what it begins. -/
def isBefore : Text → Text → Bool
  | _, [] => false
  | [], _ :: _ => true
  | a :: s, b :: t => if a = b then isBefore s t else a < b

/-- The two-digit lower-case hexadecimal form of a byte. -/
def hexByte (b : UInt8) : Text :=
  [Byte.hexDigit (b.toNat / 16), Byte.hexDigit (b.toNat % 16)]

/-- A number in lower-case hexadecimal, padded with zeros to a width. -/
def hex (width n : Nat) : Text :=
  match width with
  | 0 => []
  | width + 1 => hex width (n / 16) ++ [Byte.hexDigit (n % 16)]

/-! ## Laws of cutting and joining -/

theorem splitOn_ne_nil (sep : UInt8) (s : Text) : splitOn sep s ≠ [] := by
  cases s with
  | nil => simp [splitOn]
  | cons b s =>
      unfold splitOn
      split
      · simp
      · split <;> simp

/-- A byte that is no separator goes to the front of the first part. -/
theorem exists_splitOn_cons {sep b : UInt8} (h : b ≠ sep) (s : Text) :
    ∃ part parts, splitOn sep s = part :: parts ∧
      splitOn sep (b :: s) = (b :: part) :: parts := by
  obtain ⟨part, parts, hParts⟩ := List.exists_cons_of_ne_nil (splitOn_ne_nil sep s)
  exact ⟨part, parts, hParts, by rw [splitOn, if_neg h, hParts]⟩

theorem join_cons (sep part : Text) {parts : List Text} (h : parts ≠ []) :
    join sep (part :: parts) = part ++ sep ++ join sep parts := by
  cases parts with
  | nil => exact absurd rfl h
  | cons next parts => rfl

theorem join_cons_cons (sep : Text) (b : UInt8) (part : Text) (parts : List Text) :
    join sep ((b :: part) :: parts) = b :: join sep (part :: parts) := by
  cases parts <;> simp [join]

/-- Nothing is lost by cutting: joining the parts gives the text back. -/
theorem join_splitOn (sep : UInt8) (s : Text) : join [sep] (splitOn sep s) = s := by
  induction s with
  | nil => rfl
  | cons b s ih =>
      by_cases hSep : b = sep
      · rw [splitOn, if_pos hSep, join_cons _ _ (splitOn_ne_nil sep s), ih, hSep]
        rfl
      · obtain ⟨part, parts, hParts, hCut⟩ := exists_splitOn_cons hSep s
        rw [hCut, join_cons_cons, ← hParts, ih]

/-- There is one part more than there are separators. -/
theorem length_splitOn (sep : UInt8) (s : Text) : (splitOn sep s).length = s.count sep + 1 := by
  induction s with
  | nil => rfl
  | cons b s ih =>
      by_cases hSep : b = sep
      · rw [splitOn, if_pos hSep, List.length_cons, ih, hSep, List.count_cons_self]
      · obtain ⟨part, parts, hParts, hCut⟩ := exists_splitOn_cons hSep s
        rw [hParts] at ih
        rw [hCut, List.count_cons_of_ne hSep, ← ih, List.length_cons, List.length_cons]

/-- A text without the separator is one part. -/
theorem splitOn_of_not_mem {sep : UInt8} {s : Text} (h : sep ∉ s) : splitOn sep s = [s] := by
  induction s with
  | nil => rfl
  | cons b s ih =>
      have hHead : b ≠ sep := fun hEq => h (hEq ▸ List.mem_cons_self)
      have hTail : sep ∉ s := fun hMem => h (List.mem_cons_of_mem b hMem)
      rw [splitOn, if_neg hHead, ih hTail]

/-- Cutting at a separator that is there. -/
theorem splitOn_append (sep : UInt8) (s t : Text) :
    splitOn sep (s ++ sep :: t) = splitOn sep s ++ splitOn sep t := by
  induction s with
  | nil => simp [splitOn]
  | cons b s ih =>
      by_cases hSep : b = sep
      · rw [List.cons_append, splitOn, splitOn, if_pos hSep, if_pos hSep, ih, List.cons_append]
      · obtain ⟨part, parts, hParts, hCut⟩ := exists_splitOn_cons hSep s
        rw [hParts, List.cons_append] at ih
        rw [List.cons_append, hCut, splitOn, if_neg hSep, ih, List.cons_append]

/-- Parts without the separator are the cuts of their joining. -/
theorem splitOn_join (sep : UInt8) {parts : List Text} (hParts : parts ≠ [])
    (h : ∀ part ∈ parts, sep ∉ part) : splitOn sep (join [sep] parts) = parts := by
  induction parts with
  | nil => exact absurd rfl hParts
  | cons part parts ih =>
      have hPart : splitOn sep part = [part] := splitOn_of_not_mem (h part List.mem_cons_self)
      cases parts with
      | nil => exact hPart
      | cons next parts =>
          have hRest := ih (by simp) fun p hp => h p (List.mem_cons_of_mem part hp)
          rw [join_cons _ _ (by simp), List.append_assoc, List.singleton_append, splitOn_append,
            hPart, hRest]
          rfl

/-- A beginning can be taken away exactly from the texts that have it, and
what is left is what follows. -/
theorem dropPrefix?_eq_some_iff {p s rest : Text} :
    dropPrefix? p s = some rest ↔ s = p ++ rest := by
  induction p generalizing s with
  | nil => simp [dropPrefix?, eq_comm]
  | cons a p ih =>
      cases s with
      | nil => simp [dropPrefix?]
      | cons b s =>
          simp only [dropPrefix?, List.cons_append, List.cons.injEq]
          split
          · next hEq => simp [hEq, ih]
          · next hNe => simp [Ne.symm hNe]

/-- An ending that is there is taken away. -/
theorem trimSuffix_append (s suffix : Text) : trimSuffix suffix (s ++ suffix) = s := by
  have hSuffix : suffix.isSuffixOf (s ++ suffix) = true :=
    List.isSuffixOf_iff_suffix.2 (List.suffix_append s suffix)
  rw [trimSuffix, if_pos hSuffix]
  simp

theorem trimSuffix_of_not_suffix {suffix s : Text} (h : ¬ suffix <:+ s) :
    trimSuffix suffix s = s :=
  if_neg fun hSuffix => h (List.isSuffixOf_iff_suffix.1 hSuffix)

end Text

end DottedNames
