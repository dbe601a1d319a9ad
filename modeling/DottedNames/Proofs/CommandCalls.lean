import DottedNames.CommandLine.Run
import DottedNames.Proofs.LineArguments

/-!
# Calling a command

A command line that begins with the name of a command and goes on with words
calls that command on these words. A word is any argument that does not have the
shape of a flag, a dash and something after it; behind the argument that ends the
flags every argument is a word, whatever its shape.

## Main results

* `readFrom_words_append`, `readFrom_endOfFlags` — reading words.
* `run_of_invokes` — what makes a command run, in whatever spelling.
* `run_words`, `run_words_after_end` — a call of a command on words.
* `not_isFlag_of_readLine` — what can be read as a line is a word.
-/

namespace DottedNames

namespace CommandLine

/-- An argument that is read as a flag: a dash with something after it. -/
def IsFlag (argument : Text) : Prop := isFlagLike argument = true ∧ 1 < argument.length

instance (argument : Text) : Decidable (IsFlag argument) := by
  unfold IsFlag
  infer_instance

/-! ## Reading words -/

theorem readOne_of_not_isFlag (flags : List Flag) (r : Reading) {argument : Text}
    (h : ¬ IsFlag argument) : readOne flags r argument = .ok (.settled (r.addWord argument)) := by
  match argument, h with
  | [], _ => rfl
  | [_], _ => rfl
  | a :: b :: rest, h =>
      have hDash : a ≠ Byte.dash := fun hEq => h ⟨by simp [isFlagLike, hEq], by simp⟩
      simp [readOne, hDash]

/-- Words are taken as they come, and reading goes on behind them. -/
theorem readFrom_words_append (flags : List Flag) (r : Reading) {words : List Text}
    (h : ∀ word ∈ words, ¬ IsFlag word) (rest : List Text) :
    readFrom flags r (words ++ rest) =
      readFrom flags { r with words := r.words ++ words } rest := by
  induction words generalizing r with
  | nil => simp
  | cons word words ih =>
      have hWord : ¬ IsFlag word := h word (by simp)
      have hGoOn : word ≠ endOfFlags := fun hEq => hWord (hEq ▸ by decide)
      rw [List.cons_append, readFrom, if_neg hGoOn, readOne_of_not_isFlag flags r hWord]
      simp only
      rw [ih (r.addWord word) fun w hw => h w (by simp [hw])]
      simp [Reading.addWord]

theorem readFrom_words (flags : List Flag) (r : Reading) {words : List Text}
    (h : ∀ word ∈ words, ¬ IsFlag word) :
    readFrom flags r words = .ok { r with words := r.words ++ words } := by
  have hAll := readFrom_words_append flags r h []
  rwa [List.append_nil] at hAll

theorem readFrom_endOfFlags (flags : List Flag) (r : Reading) (words : List Text) :
    readFrom flags r (endOfFlags :: words) = .ok { r with words := r.words ++ words } := by
  rw [readFrom, if_pos rfl]

/-! ## Calls -/

/-- The name of a command is a word in every respect, and no other has it. -/
theorem name_is_word (command : Command) :
    command.name ≠ endOfFlags ∧ takesNext command.name = false ∧
      (command.name.isEmpty || isFlagLike command.name) = false ∧
        Command.ofName? command.name = some command := by
  cases command <;> decide

/-- The name of a command in the first place is what a line is addressed to. -/
theorem route_name (command : Command) (arguments : List Text) :
    route (command.name :: arguments) = .command command arguments := by
  obtain ⟨hGoOn, hAlone, hWord, hFound⟩ := name_is_word command
  have hFirst : firstWord? (command.name :: arguments) = some command.name := by
    unfold firstWord?
    simp [hGoOn, hAlone, hWord]
  have hRest : withoutWord command.name (command.name :: arguments) = arguments := by
    unfold withoutWord
    simp [hGoOn, hAlone]
  simp [route, hFirst, hFound, hRest]

/-- The arguments make a command run on a reading of theirs: the line is addressed
to it, its flags can be read, help is not asked for, and there are as many words as
it takes. -/
def Invokes (command : Command) (r : Reading) (arguments : List Text) : Prop :=
  ∃ rest, route arguments = .command command rest ∧ readFlags command.flags rest = .ok r ∧
    r.isOn (text "help") = false ∧ command.arity? = some r.words.length

theorem run_of_invokes (s : Surroundings) {command : Command} {r : Reading} {arguments : List Text}
    (h : Invokes command r arguments) : run s arguments = runCommand s command r := by
  obtain ⟨rest, hRoute, hRead, hHelp, hArity⟩ := h
  simp [run, hRoute, runArguments, hRead, hHelp, checkWordCount, hArity, orFail]

theorem invokes_name {command : Command} {r : Reading} {arguments : List Text}
    (hRead : readFlags command.flags arguments = .ok r) (hHelp : r.isOn (text "help") = false)
    (hArity : command.arity? = some r.words.length) :
    Invokes command r (command.name :: arguments) :=
  ⟨arguments, route_name command arguments, hRead, hHelp, hArity⟩

/-- A command called on as many words as it takes runs on them. -/
theorem run_words (s : Surroundings) {command : Command} {words : List Text}
    (hArity : command.arity? = some words.length) (h : ∀ word ∈ words, ¬ IsFlag word) :
    run s (command.name :: words) = runCommand s command { words } := by
  have hRead : readFlags command.flags words = .ok { words } := by
    rw [readFlags, readFrom_words _ _ h]
    rfl
  exact run_of_invokes s (invokes_name hRead rfl hArity)

/-- Behind the end of flags any arguments are words. -/
theorem run_words_after_end (s : Surroundings) {command : Command} {words : List Text}
    (hArity : command.arity? = some words.length) :
    run s (command.name :: endOfFlags :: words) = runCommand s command { words } := by
  have hRead : readFlags command.flags (endOfFlags :: words) = .ok { words } := by
    rw [readFlags, readFrom_endOfFlags]
    rfl
  exact run_of_invokes s (invokes_name hRead rfl hArity)

/-! ## Line arguments -/

/-- What begins with a dash is a numeral only of a number that is not positive. -/
theorem not_isFlag_of_readLine {argument : Text} {line : Int64} (h : readLine argument = .ok line) :
    ¬ IsFlag argument := by
  rintro ⟨hDash, -⟩
  obtain ⟨n, hNumeral, hOne, -⟩ := readLine_eq_ok_iff.1 h
  match argument, hDash with
  | b :: digits, hDash =>
      have hHead : b = Byte.dash := by simpa [isFlagLike] using hDash
      subst hHead
      have hValue := (Numeral.isNumeral_iff.1 hNumeral).2
      have hNegative : Numeral.splitSign (Byte.dash :: digits) = (true, digits) := rfl
      simp only [hNegative, Numeral.withSign, if_true] at hValue
      omega

end CommandLine

end DottedNames
