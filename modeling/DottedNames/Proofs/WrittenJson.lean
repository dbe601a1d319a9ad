import DottedNames.Proofs.JsonStrings
import DottedNames.Proofs.WholeNumbers

/-!
# Reading what was written

A value that is written with one item a line is read back from the text: the value
itself, but for the stray bytes of its strings, which are replaced on the way. It has
to be `Readable`: its numbers are whole, and its arrays and objects stand inside each
other no deeper than the reader goes.

A value may be followed by more text, as an item is by a comma or a line break. Only
the reader of a number looks at it, so that a digit, a point or an exponent must not
come next (`Stops`). The fuel that is needed is at most the length of the text.

## Main results

* `readNumber_integer` — the reader of numbers.
* `readItems_indented`, `readMembers_indented` — items and members, one after the other.
* `Readable.readsBack` — values, by how they are built.
* `parse_indented` — a written value is read back, repaired.
* `Readable.isValid_indentedAt` — a written value is well-formed UTF-8.
-/

namespace DottedNames

namespace Json

mutual

/-- The value with the stray bytes of its strings replaced. -/
def repaired : Json → Json
  | string s => string (Utf8.repair s)
  | array items => array (repairedItems items)
  | object members => object (repairedMembers members)
  | value => value

/-- The items of an array, repaired. -/
def repairedItems : List Json → List Json
  | [] => []
  | item :: items => repaired item :: repairedItems items

/-- The members of an object, repaired. -/
def repairedMembers : List (Text × Json) → List (Text × Json)
  | [] => []
  | (name, value) :: members => (Utf8.repair name, repaired value) :: repairedMembers members

end

theorem repairedItems_eq (items : List Json) : repairedItems items = items.map repaired := by
  induction items with
  | nil => rfl
  | cons item items ih => rw [repairedItems, ih, List.map_cons]

theorem repairedMembers_eq (members : List (Text × Json)) :
    repairedMembers members =
      members.map fun member => (Utf8.repair member.1, member.2.repaired) := by
  induction members with
  | nil => rfl
  | cons member members ih => rw [repairedMembers, ih, List.map_cons]

theorem indentedItems_eq (level : Nat) (items : List Json) :
    indentedItems level items = items.map (indentedAt level) := by
  induction items with
  | nil => rfl
  | cons item items ih => rw [indentedItems, ih, List.map_cons]

theorem indentedMembers_eq (level : Nat) (members : List (Text × Json)) :
    indentedMembers level members = members.map fun member =>
      quoted member.1 ++ [Byte.colon, Byte.space] ++ indentedAt level member.2 := by
  induction members with
  | nil => rfl
  | cons member members ih => rw [indentedMembers, ih, List.map_cons]

/-- Values that are read back when they are written: their numbers are whole, and their
arrays and objects stand inside each other down to so many levels. -/
inductive Readable : Nat → Json → Prop
  | null {levels : Nat} : Readable levels null
  | bool {levels : Nat} (value : Bool) : Readable levels (bool value)
  | whole {levels : Nat} (n : Int) : Readable levels (ofInt n)
  | string {levels : Nat} (s : Text) : Readable levels (string s)
  | array {levels : Nat} {items : List Json} (h : ∀ item ∈ items, Readable levels item) :
      Readable (levels + 1) (array items)
  | object {levels : Nat} {members : List (Text × Json)}
      (h : ∀ member ∈ members, Readable levels member.2) : Readable (levels + 1) (object members)

/-! ## Blanks -/

theorem mem_newLine {level : Nat} {b : UInt8} (h : b ∈ newLine level) :
    b = Byte.newline ∨ b = Byte.space := by
  rcases List.mem_cons.1 h with hBreak | hIndent
  · exact Or.inl hBreak
  · exact Or.inr (List.mem_replicate.1 hIndent).2

theorem skipBlanks_newLine (level : Nat) (s : Text) :
    skipBlanks (newLine level ++ s) = skipBlanks s := by
  have hBlank : ∀ b ∈ newLine level, isBlank b = true := by
    intro b hb
    rcases mem_newLine hb with rfl | rfl <;> decide
  rw [skipBlanks, List.dropWhile_append_of_pos hBlank]
  rfl

theorem skipBlanks_of_lead {b : UInt8} (h : isBlank b = false) (s : Text) :
    skipBlanks (b :: s) = b :: s := by
  simp [skipBlanks, h]

theorem readValue_congr {s t : Text} (h : skipBlanks s = skipBlanks t) (fuel levels : Nat) :
    readValue fuel levels s = readValue fuel levels t := by
  cases fuel with
  | zero => simp [readValue]
  | succ fuel => simp only [readValue, h]

theorem readItems_congr {s t : Text} (h : skipBlanks s = skipBlanks t) (fuel levels : Nat) :
    readItems fuel levels s = readItems fuel levels t := by
  cases fuel with
  | zero => simp [readItems]
  | succ fuel => simp only [readItems, readValue_congr h]

theorem readMembers_congr {s t : Text} (h : skipBlanks s = skipBlanks t) (fuel levels : Nat) :
    readMembers fuel levels s = readMembers fuel levels t := by
  cases fuel with
  | zero => simp [readMembers]
  | succ fuel => simp only [readMembers, h]

/-! ## Numbers -/

/-- What may follow a number. -/
def Stops (rest : Text) : Prop :=
  ∀ b ∈ rest.head?, Byte.isDigit b = false ∧ b ≠ Byte.dot ∧ b ≠ 0x65 ∧ b ≠ 0x45

theorem ne_of_isDigit {b c : UInt8} (hb : Byte.isDigit b = true) (hc : Byte.isDigit c = false) :
    b ≠ c := by
  rintro rfl
  exact Bool.false_ne_true (hc.symm.trans hb)

/-- A number is written without zeros in front. -/
theorem decimal_lead (n : Nat) :
    ∃ b s, Text.decimal n = b :: s ∧ Byte.isDigit b = true ∧ (b = 0x30 → n = 0 ∧ s = []) := by
  induction n using Nat.strongRecOn with
  | ind n ih =>
      rw [Text.decimal_eq]
      split
      · next hSmall =>
          have hDigit : ∀ d, d < 10 → Byte.isDigit (0x30 + d).toUInt8 = true ∧
              ((0x30 + d).toUInt8 = 0x30 → d = 0) := by decide
          rw [Nat.mod_eq_of_lt hSmall]
          exact ⟨_, [], rfl, (hDigit n hSmall).1, fun h => ⟨(hDigit n hSmall).2 h, rfl⟩⟩
      · next hLarge =>
          obtain ⟨b, s, hEq, hDigit, hZero⟩ := ih (n / 10) (by omega)
          rw [hEq]
          refine ⟨b, s ++ [_], rfl, hDigit, fun h => ?_⟩
          have := (hZero h).1
          omega

/-- A whole number begins with a dash or a digit, which is no blank. -/
theorem integer_lead (n : Int) :
    ∃ b s, Text.integer n = b :: s ∧ isBlank b = false ∧
      ∀ c, Byte.isDigit c = false → Byte.dash ≠ c → b ≠ c := by
  cases n with
  | negSucc n => exact ⟨_, _, rfl, by decide, fun c _ hDash => hDash⟩
  | ofNat n =>
      obtain ⟨b, s, hEq, hDigit, -⟩ := decimal_lead n
      have hOther : ∀ c, Byte.isDigit c = false → b ≠ c := fun c => ne_of_isDigit hDigit
      refine ⟨b, s, hEq, ?_, fun c hc _ => hOther c hc⟩
      simp [isBlank, hOther Byte.space (by decide), hOther Byte.tab (by decide),
        hOther Byte.newline (by decide), hOther Byte.carriageReturn (by decide)]

theorem readDigits_append {digits rest : Text} (hSome : digits ≠ [])
    (hDigits : ∀ b ∈ digits, Byte.isDigit b = true) (hRest : Stops rest) :
    readDigits (digits ++ rest) = some (digits, rest) := by
  have hNone : rest.takeWhile Byte.isDigit = [] ∧ rest.dropWhile Byte.isDigit = rest := by
    cases rest with
    | nil => exact ⟨rfl, rfl⟩
    | cons b rest => simp [(hRest b rfl).1]
  rw [readDigits, List.takeWhile_append_of_pos hDigits, List.dropWhile_append_of_pos hDigits,
    hNone.1, hNone.2, List.append_nil]
  simp [hSome]

theorem readWhole_decimal (n : Nat) {rest : Text} (hRest : Stops rest) :
    readWhole (Text.decimal n ++ rest) = some (Text.decimal n, rest) := by
  obtain ⟨b, s, hEq, -, hZero⟩ := decimal_lead n
  have hDigits := readDigits_append (by simp [hEq]) (Text.isDigit_of_mem_decimal n) hRest
  rw [hEq, List.cons_append] at hDigits ⊢
  rw [readWhole]
  split
  · next h =>
      obtain ⟨-, rfl⟩ := hZero (by simpa using h)
      rfl
  · exact hDigits

/-- A whole number is read up to what follows it. -/
theorem readNumber_integer (n : Int) {rest : Text} (hRest : Stops rest) :
    readNumber (Text.integer n ++ rest) = some (Text.integer n, rest) := by
  have hFraction : readFraction rest = some ([], rest) := by
    cases rest with
    | nil => rfl
    | cons b rest => simp [readFraction, (hRest b rfl).2]
  have hExponent : readExponent rest = some ([], rest) := by
    cases rest with
    | nil => rfl
    | cons b rest => simp [readExponent, (hRest b rfl).2]
  cases n with
  | ofNat n =>
      have hSign : readSign false (Text.decimal n ++ rest) = ([], Text.decimal n ++ rest) := by
        obtain ⟨b, s, hEq, hDigit, -⟩ := decimal_lead n
        have hDash : b ≠ Byte.dash := ne_of_isDigit hDigit (by decide)
        simp [hEq, readSign, hDash]
      simp [readNumber, Text.integer, hSign, readWhole_decimal n hRest, hFraction, hExponent]
  | negSucc n =>
      have hSign : readSign false (Byte.dash :: (Text.decimal (n + 1) ++ rest)) =
          ([Byte.dash], Text.decimal (n + 1) ++ rest) := by simp [readSign]
      simp [readNumber, Text.integer, hSign, readWhole_decimal (n + 1) hRest, hFraction, hExponent]

/-! ## Items and members -/

/-- A written value begins with a byte that is no blank and closes no array. -/
theorem indentedAt_lead {levels : Nat} {value : Json} (h : Readable levels value) (level : Nat) :
    ∃ b s, indentedAt level value = b :: s ∧ isBlank b = false ∧ b ≠ 0x5d := by
  cases h with
  | null => exact ⟨_, _, rfl, by decide, by decide⟩
  | bool value => cases value <;> exact ⟨_, _, rfl, by decide, by decide⟩
  | string s => exact ⟨_, _, rfl, by decide, by decide⟩
  | whole n =>
      obtain ⟨b, s, hEq, hBlank, hOther⟩ := integer_lead n
      exact ⟨b, s, hEq, hBlank, hOther _ (by decide) (by decide)⟩
  | array =>
      rw [indentedAt, block]
      split <;> exact ⟨_, _, rfl, by decide, by decide⟩
  | object =>
      rw [indentedAt, block]
      split <;> exact ⟨_, _, rfl, by decide, by decide⟩

/-- The reader gets through a written value with fuel for its length. -/
def ReadsBack (levels : Nat) (value : Json) : Prop :=
  ∀ (level fuel : Nat) (rest : Text), Stops rest → (indentedAt level value).length ≤ fuel →
    readValue fuel levels (indentedAt level value ++ rest) = some (value.repaired, rest)

theorem stops_newLine (level : Nat) (rest : Text) : Stops (newLine level ++ rest) := by
  rintro b ⟨⟩
  decide

theorem stops_comma (rest : Text) : Stops (0x2c :: rest) := by
  rintro b ⟨⟩
  decide

/-- Items, with commas and line breaks between them, up to the bracket that closes the
array. -/
theorem readItems_indented {levels : Nat} {items : List Json}
    (h : ∀ item ∈ items, ReadsBack levels item) (hSome : items ≠ []) (level outer : Nat)
    {fuel : Nat} (rest : Text)
    (hFuel : (Text.join (0x2c :: newLine level) (indentedItems level items)).length < fuel) :
    readItems fuel levels (Text.join (0x2c :: newLine level) (indentedItems level items) ++
        (newLine outer ++ 0x5d :: rest)) = some (repairedItems items, rest) := by
  -- an item takes one unit of fuel from those behind it, and the comma makes up for it
  obtain ⟨fuel, rfl⟩ : ∃ k, fuel = k + 1 := ⟨fuel - 1, by omega⟩
  induction items generalizing fuel with
  | nil => exact absurd rfl hSome
  | cons item items ih =>
      have hItem := h item (by simp)
      cases items with
      | nil =>
          simp only [indentedItems, Text.join] at hFuel ⊢
          rw [readItems, hItem level fuel _ (stops_newLine _ _) (by omega)]
          simp only
          rw [skipBlanks_newLine, skipBlanks_of_lead (by decide)]
          rfl
      | cons next items =>
          have hTexts : indentedItems level (next :: items) ≠ [] := by simp [indentedItems]
          rw [indentedItems, Text.join_cons _ _ hTexts] at hFuel ⊢
          simp only [List.length_append, List.length_cons] at hFuel
          obtain ⟨fuel, rfl⟩ : ∃ k, fuel = k + 1 := ⟨fuel - 1, by omega⟩
          rw [List.append_assoc, List.append_assoc, List.cons_append, readItems,
            hItem level (fuel + 1) _ (stops_comma _) (by omega)]
          simp only
          rw [skipBlanks_of_lead (by decide)]
          simp only
          rw [readItems_congr (skipBlanks_newLine level _),
            ih (fun x hx => h x (List.mem_cons_of_mem item hx)) (by simp) fuel (by omega)]
          rfl

/-- A member whose value is read: the last one, and one with others behind it. -/
theorem readMembers_member {fuel levels : Nat} {name s rest after : Text} {value : Json}
    (h : readValue fuel levels s = some (value, rest)) :
    (skipBlanks rest = 0x7d :: after →
      readMembers (fuel + 1) levels (quoted name ++ [Byte.colon, Byte.space] ++ s) =
        some ([(Utf8.repair name, value)], after)) ∧
    (skipBlanks rest = 0x2c :: after →
      readMembers (fuel + 1) levels (quoted name ++ [Byte.colon, Byte.space] ++ s) =
        (readMembers fuel levels after).map fun (members, rest) =>
          ((Utf8.repair name, value) :: members, rest)) := by
  have hSpace : skipBlanks (Byte.space :: s) = skipBlanks s := rfl
  rw [List.append_assoc, quoted_append, readMembers, skipBlanks_of_lead (by decide)]
  simp only [readString_escaped, List.cons_append, List.nil_append]
  rw [skipBlanks_of_lead (by decide)]
  simp only [readValue_congr hSpace, h]
  refine ⟨fun hClose => ?_, fun hComma => ?_⟩
  · simp only [hClose]
  · simp only [hComma]

/-- Members, with commas and line breaks between them, up to the bracket that closes
the object. -/
theorem readMembers_indented {levels : Nat} {members : List (Text × Json)}
    (h : ∀ member ∈ members, ReadsBack levels member.2) (hSome : members ≠ []) (level outer : Nat)
    {fuel : Nat} (rest : Text)
    (hFuel : (Text.join (0x2c :: newLine level) (indentedMembers level members)).length < fuel) :
    readMembers fuel levels (Text.join (0x2c :: newLine level) (indentedMembers level members) ++
        (newLine outer ++ 0x7d :: rest)) = some (repairedMembers members, rest) := by
  obtain ⟨fuel, rfl⟩ : ∃ k, fuel = k + 1 := ⟨fuel - 1, by omega⟩
  induction members generalizing fuel with
  | nil => exact absurd rfl hSome
  | cons member members ih =>
      obtain ⟨name, value⟩ := member
      have hValue : ReadsBack levels value := h (name, value) (by simp)
      cases members with
      | nil =>
          simp only [indentedMembers, Text.join, List.length_append] at hFuel ⊢
          have hClose : skipBlanks (newLine outer ++ 0x7d :: rest) = 0x7d :: rest := by
            rw [skipBlanks_newLine, skipBlanks_of_lead (by decide)]
          rw [List.append_assoc]
          exact (readMembers_member
            (hValue level fuel _ (stops_newLine _ _) (by omega))).1 hClose
      | cons next members =>
          have hTexts : indentedMembers level (next :: members) ≠ [] := by
            simp [indentedMembers]
          rw [indentedMembers, Text.join_cons _ _ hTexts] at hFuel ⊢
          simp only [List.length_append, List.length_cons] at hFuel
          obtain ⟨fuel, rfl⟩ : ∃ k, fuel = k + 1 := ⟨fuel - 1, by omega⟩
          rw [List.append_assoc, List.append_assoc, List.append_assoc, List.cons_append,
            (readMembers_member (hValue level (fuel + 1) _ (stops_comma _) (by omega))).2
              (skipBlanks_of_lead (by decide) _),
            readMembers_congr (skipBlanks_newLine level _),
            ih (fun x hx => h x (List.mem_cons_of_mem _ hx)) (by simp) fuel (by omega)]
          rfl

/-! ## Values -/

theorem block_append (opening closing : UInt8) (level : Nat) {items : List Text} (h : items ≠ [])
    (rest : Text) :
    block opening closing level items ++ rest =
      opening :: (newLine (level + 1) ++ (Text.join (0x2c :: newLine (level + 1)) items ++
        (newLine level ++ closing :: rest))) := by
  simp [block, h]

theorem length_block (opening closing : UInt8) (level : Nat) {items : List Text} (h : items ≠ []) :
    (Text.join (0x2c :: newLine (level + 1)) items).length + 2 ≤
      (block opening closing level items).length := by
  simp only [block, List.isEmpty_iff, h, if_false, List.length_append, List.length_singleton]
  omega

/-- A text is never empty, so there is a first unit of fuel for it. -/
theorem Readable.readsBack_of_succ {levels : Nat} {value : Json} (h : Readable levels value)
    (hStep : ∀ (level fuel : Nat) (rest : Text), Stops rest →
      (indentedAt level value).length ≤ fuel + 1 →
        readValue (fuel + 1) levels (indentedAt level value ++ rest) =
          some (value.repaired, rest)) : ReadsBack levels value := by
  intro level fuel rest hRest hFuel
  obtain ⟨b, s, hLead, -⟩ := indentedAt_lead h level
  have hLength := congrArg List.length hLead
  rw [List.length_cons] at hLength
  obtain ⟨fuel, rfl⟩ : ∃ k, fuel = k + 1 := ⟨fuel - 1, by omega⟩
  exact hStep level fuel rest hRest hFuel

theorem readValue_quoted (fuel levels : Nat) (s rest : Text) :
    readValue (fuel + 1) levels (quoted s ++ rest) = some (string (Utf8.repair s), rest) := by
  rw [quoted_append, readValue, skipBlanks_of_lead (by decide)]
  simp [readString_escaped]

theorem readValue_integer (fuel levels : Nat) (n : Int) {rest : Text} (hRest : Stops rest) :
    readValue (fuel + 1) levels (Text.integer n ++ rest) = some (ofInt n, rest) := by
  have hNumber := readNumber_integer n hRest
  obtain ⟨b, s, hLead, hBlank, hOther⟩ := integer_lead n
  rw [hLead, List.cons_append] at hNumber ⊢
  rw [readValue, skipBlanks_of_lead hBlank]
  simp [hOther Byte.doubleQuote (by decide) (by decide), hOther 0x5b (by decide) (by decide),
    hOther 0x7b (by decide) (by decide), hOther 0x74 (by decide) (by decide),
    hOther 0x66 (by decide) (by decide), hOther 0x6e (by decide) (by decide), hNumber, ofInt, hLead]

theorem readValue_array {fuel levels : Nat} {b : UInt8} {s t : Text} (hSkip : skipBlanks s = b :: t)
    (hb : b ≠ 0x5d) :
    readValue (fuel + 1) (levels + 1) (0x5b :: s) =
      (readItems fuel levels (b :: t)).map fun (items, rest) => (array items, rest) := by
  rw [readValue, skipBlanks_of_lead (by decide)]
  simp [hSkip, hb, Byte.doubleQuote]

theorem readValue_object {fuel levels : Nat} {b : UInt8} {s t : Text}
    (hSkip : skipBlanks s = b :: t) (hb : b ≠ 0x7d) :
    readValue (fuel + 1) (levels + 1) (0x7b :: s) =
      (readMembers fuel levels (b :: t)).map fun (members, rest) => (object members, rest) := by
  rw [readValue, skipBlanks_of_lead (by decide)]
  simp [hSkip, hb, Byte.doubleQuote]

/-- A value that is readable is read back when it is written. -/
theorem Readable.readsBack {levels : Nat} {value : Json} (h : Readable levels value) :
    ReadsBack levels value := by
  induction h with
  | whole n =>
      exact readsBack_of_succ (.whole n) fun level fuel rest hRest _ =>
        readValue_integer fuel _ n hRest
  | string s =>
      exact readsBack_of_succ (.string s) fun level fuel rest _ _ => readValue_quoted fuel _ s rest
  | null => exact readsBack_of_succ .null fun level fuel rest _ _ => rfl
  | bool value =>
      refine readsBack_of_succ (.bool value) fun level fuel rest _ _ => ?_
      cases value <;> rfl
  | @array levels items hItems ih =>
      refine readsBack_of_succ (.array hItems) fun level fuel rest _ hFuel => ?_
      simp only [indentedAt] at hFuel ⊢
      cases items with
      | nil => rfl
      | cons item items =>
          have hTexts : indentedItems (level + 1) (item :: items) ≠ [] := by simp [indentedItems]
          have hLength := length_block 0x5b 0x5d level hTexts
          have hRead := readItems_indented ih (by simp) (level + 1) level rest
            (by omega : _ < fuel)
          obtain ⟨b, s, hLead, hBlank, hClose⟩ :=
            indentedAt_lead (hItems item (by simp)) (level + 1)
          rw [block_append _ _ _ hTexts]
          rw [indentedItems, hLead, Text.join_cons_cons, List.cons_append] at hRead ⊢
          rw [readValue_array ((skipBlanks_newLine _ _).trans (skipBlanks_of_lead hBlank _)) hClose,
            hRead]
          rfl
  | @object levels members hMembers ih =>
      refine readsBack_of_succ (.object hMembers) fun level fuel rest _ hFuel => ?_
      simp only [indentedAt] at hFuel ⊢
      cases members with
      | nil => rfl
      | cons member members =>
          have hTexts : indentedMembers (level + 1) (member :: members) ≠ [] := by
            simp [indentedMembers]
          have hLength := length_block 0x7b 0x7d level hTexts
          have hRead := readMembers_indented ih (by simp) (level + 1) level rest
            (by omega : _ < fuel)
          rw [block_append _ _ _ hTexts]
          rw [indentedMembers, List.append_assoc, quoted_append, Text.join_cons_cons,
            List.cons_append] at hRead ⊢
          rw [readValue_object
            ((skipBlanks_newLine _ _).trans (skipBlanks_of_lead (by decide) _)) (by decide), hRead]
          rfl

/-- A value that is written with one item a line is read back, repaired. -/
theorem parse_indented {value : Json} (h : Readable maxDepth value) :
    parse (indented value) = some value.repaired := by
  have hRead : readFirst (indented value) = some (value.repaired, []) := by
    have hBack := h.readsBack 0 (2 * (indented value).length + 2) [] (by rintro b ⟨⟩)
      (by unfold indented; omega)
    rwa [List.append_nil] at hBack
  rw [parse, hRead]
  rfl

/-! ## Well-formedness -/

theorem isValid_newLine (level : Nat) : Utf8.isValid (newLine level) = true := by
  refine Utf8.isValid_of_ascii fun b hb => ?_
  rcases mem_newLine hb with rfl | rfl <;> decide

theorem isValid_integer (n : Int) : Utf8.isValid (Text.integer n) = true := by
  have hDecimal : ∀ m, Utf8.isValid (Text.decimal m) = true := by
    refine fun m => Utf8.isValid_of_ascii fun b hb => ?_
    have hDigit := Text.isDigit_of_mem_decimal m b hb
    simp only [Byte.isDigit, Bool.and_eq_true, decide_eq_true_eq, UInt8.le_iff_toNat_le,
      UInt8.reduceToNat] at hDigit
    simp only [UInt8.lt_iff_toNat_lt, UInt8.reduceToNat]
    omega
  cases n with
  | ofNat n => exact hDecimal n
  | negSucc n => exact @Utf8.isValid_append [Byte.dash] _ (by decide) (hDecimal (n + 1))

theorem isValid_join {sep : Text} {parts : List Text} (hSep : Utf8.isValid sep = true)
    (h : ∀ part ∈ parts, Utf8.isValid part = true) : Utf8.isValid (Text.join sep parts) = true := by
  induction parts with
  | nil => rfl
  | cons part parts ih =>
      have hParts := ih fun p hp => h p (List.mem_cons_of_mem part hp)
      cases parts with
      | nil => exact h part (by simp)
      | cons next parts =>
          exact Utf8.isValid_append (Utf8.isValid_append (h part (by simp)) hSep) hParts

theorem isValid_block {opening closing : UInt8} (level : Nat) {items : List Text}
    (hOpening : opening < 0x80) (hClosing : closing < 0x80)
    (h : ∀ item ∈ items, Utf8.isValid item = true) :
    Utf8.isValid (block opening closing level items) = true := by
  have hOne : ∀ {b : UInt8}, b < 0x80 → Utf8.isValid [b] = true :=
    fun hb => (Utf8.Form.one hb).isValid
  have hComma : Utf8.isValid (0x2c :: newLine (level + 1)) = true :=
    @Utf8.isValid_append [0x2c] _ (by decide) (isValid_newLine _)
  unfold block
  split
  · exact @Utf8.isValid_append [opening] _ (hOne hOpening) (hOne hClosing)
  · refine Utf8.isValid_append (Utf8.isValid_append (Utf8.isValid_append ?_ ?_) ?_) (hOne hClosing)
    · exact Utf8.isValid_append (hOne hOpening) (isValid_newLine _)
    · exact isValid_join hComma h
    · exact isValid_newLine _

/-- A written value is well-formed UTF-8, whatever bytes its strings have. -/
theorem Readable.isValid_indentedAt {levels : Nat} {value : Json} (h : Readable levels value) :
    ∀ level, Utf8.isValid (indentedAt level value) = true := by
  induction h with
  | null => exact fun level => (by decide : Utf8.isValid (text "null") = true)
  | bool value =>
      cases value with
      | true => exact fun level => (by decide : Utf8.isValid (text "true") = true)
      | false => exact fun level => (by decide : Utf8.isValid (text "false") = true)
  | whole n => exact fun level => isValid_integer n
  | string s => exact fun level => isValid_quoted s
  | @array levels items _ ih =>
      intro level
      refine isValid_block level (by decide) (by decide) fun written hWritten => ?_
      rw [indentedItems_eq] at hWritten
      obtain ⟨item, hItem, rfl⟩ := List.mem_map.1 hWritten
      exact ih item hItem (level + 1)
  | @object levels members _ ih =>
      intro level
      refine isValid_block level (by decide) (by decide) fun written hWritten => ?_
      rw [indentedMembers_eq] at hWritten
      obtain ⟨member, hMember, rfl⟩ := List.mem_map.1 hWritten
      exact Utf8.isValid_append (Utf8.isValid_append (isValid_quoted _) (by decide))
        (ih member hMember (level + 1))

end Json

end DottedNames
