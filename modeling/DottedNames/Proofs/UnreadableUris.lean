import DottedNames.Proofs.PositionRequests

/-!
# Documents whose URI cannot be read

An editor can send any text for a document's URI, and the server has to live with what
it names: no Python file, a file that is not there, a directory, or nothing at all
because the text is no well-formed URI. Most requests do: a notification about such a
document is dropped, and a question about it finds nothing. A command runs on every
document that is named, and says in a message when it cannot be read. Only a URI that
names no document is a bad argument to a command, and this is the one way in which a
document makes a request fail.

A URI can be refused for its form only when it begins with the scheme of files; any other
text is a path as it stands.

## Main results

* `serve_of_isAbout`, `serve_of_unreadable` — requests other than commands.
* `answer_command_isOk_iff` — which URIs a command can be run on.
* `unreadable_uris_fail_commands_only` — the requests that a document can make fail.
-/

namespace DottedNames

theorem Uri.fileScheme_prefix_of_error {uri : Text} {refusal : Uri.Refusal}
    (h : Uri.toPath uri = .error refusal) : Uri.fileScheme <+: uri := by
  unfold Uri.toPath at h
  split at h
  · exact absurd h (by simp)
  · next rest hRest => exact ⟨rest, (Text.dropPrefix?_eq_some_iff.1 hRest).symm⟩

namespace Server

/-- A number, in one of the forms in which a line comes as an argument. -/
inductive Argument.IsNumber : Argument → Prop
  | double (literal : Text) : IsNumber (.json (.number literal))
  | integer (n : Int64) : IsNumber (.integer n)
  | unsigned (n : UInt32) : IsNumber (.unsigned n)

/-- Every number stands for a line. -/
theorem Argument.IsNumber.exists_line {a : Argument} (h : a.IsNumber) :
    ∃ line, a.line? = some line := by
  cases h with
  | double literal =>
      cases hWhole : Json.wholePart? literal with
      | some n => exact ⟨clampToLeast n, by simp [line?, hWhole]⟩
      | none => exact ⟨Int64.minValue, by simp [line?, hWhole]⟩
  | integer n => exact ⟨n, rfl⟩
  | unsigned n => exact ⟨_, rfl⟩

/-- A request about the document with a URI, other than a command. -/
inductive Request.IsAbout (uri : Text) : Request → Prop
  | didOpen (content : Text) : IsAbout uri (.didOpen uri content)
  | didChange (content : Option Text) : IsAbout uri (.didChange uri content)
  | didClose : IsAbout uri (.didClose uri)
  | didSave (content : Option Text) : IsAbout uri (.didSave uri content)
  | hover (line : UInt32) : IsAbout uri (.hover uri line)
  | codeAction (line : UInt32) : IsAbout uri (.codeAction uri line)

namespace State

variable (s : State) (view : View) {uri : Text} {request : Request}

/-! ## Notifications and questions -/

/-- Requests other than commands have a result, whatever document they are about. -/
theorem serve_of_isAbout (h : request.IsAbout uri) :
    ∃ answer, (s.serve view request).1.answer = .ok answer := by
  cases h with
  | didOpen | didClose | hover | codeAction => exact ⟨_, rfl⟩
  | didChange content => cases content <;> exact ⟨_, rfl⟩
  | didSave content => cases content <;> exact ⟨_, rfl⟩

theorem openDocument_of_unreadable {refusal : Uri.Refusal} (h : Uri.toPath uri = .error refusal)
    (content : Text) : s.openDocument uri content = s := by
  simp only [openDocument, h]

theorem pythonPath?_of_unreadable {refusal : Uri.Refusal} (h : Uri.toPath uri = .error refusal) :
    pythonPath? uri = none := by
  simp only [pythonPath?, h]

/-- With a URI that cannot be read they find nothing and change nothing. -/
theorem serve_of_unreadable {refusal : Uri.Refusal} (hUri : Uri.toPath uri = .error refusal)
    (h : request.IsAbout uri) : s.serve view request = ({ answer := .ok .nothing }, s) := by
  cases h with
  | didOpen content => simp only [serve, openDocument_of_unreadable s hUri]
  | didChange content =>
      cases content with
      | none => rfl
      | some content => simp only [serve, openDocument_of_unreadable s hUri]
  | didClose => simp only [serve, closeDocument, hUri]
  | didSave content =>
      cases content with
      | none => rfl
      | some content => simp only [serve, openDocument_of_unreadable s hUri]
  | hover line => simp only [serve, hover, pythonPath?_of_unreadable hUri]
  | codeAction line => simp only [serve, codeAction, pythonPath?_of_unreadable hUri]

/-! ## Commands -/

/-- A command that runs has a result, whether or not the document can be read. -/
theorem answer_runCommand (command : Command) (path : Text) (line : Int64) :
    ∃ answer, (s.runCommand view command path line).1.answer = .ok answer := by
  rw [runCommand_eq]
  split
  · split
    · exact ⟨_, rfl⟩
    · exact ⟨_, rfl⟩
  · exact ⟨_, rfl⟩

/-- A command on a URI that cannot be read is refused, and nothing else happens. -/
theorem serve_command_of_unreadable {refusal : Uri.Refusal}
    (hUri : Uri.toPath uri = .error refusal) (command : Command) {second : Argument}
    (h : second.IsNumber) :
    s.serve view (.executeCommand command.name [.json (.string uri), second]) =
      ({ answer := .error (.badArguments command (.uri uri refusal)) }, s) := by
  obtain ⟨line, hLine⟩ := h.exists_line
  have hText : (Argument.json (.string uri)).text? = some uri := rfl
  simp only [serve, executeCommand, ofName?_name, readArguments, hText, hLine, hUri]

/-- A command runs on every document that a URI names. -/
theorem answer_command_isOk_iff (uri : Text) (command : Command) {second : Argument}
    (h : second.IsNumber) :
    (∃ answer, (s.serve view (.executeCommand command.name
        [.json (.string uri), second])).1.answer = .ok answer) ↔
      ∃ path, Uri.toPath uri = .ok path := by
  cases hUri : Uri.toPath uri with
  | error refusal => simp [serve_command_of_unreadable s view hUri command h]
  | ok path =>
      obtain ⟨line, hLine⟩ := h.exists_line
      have hAsk := s.ask_command view command uri hLine
      rw [ask, hUri] at hAsk
      simp [hAsk, answer_runCommand]

end State

/-- In an open session a request that can be read comes to what its handler makes of it.
The handlers of notifications, of hovering and of code actions have a result for every
document, and where its URI cannot be read they find nothing and change nothing. The
handler of the two commands, given a URI and a number, has a result exactly when the URI
can be read, whatever the document is; else it refuses the URI as an argument and changes
nothing. Only a URI with the scheme of files cannot be read. -/
theorem unreadable_uris_fail_commands_only {s : State} (hOpen : s.initialized = true)
    (view : View) (uri : Text) :
    (∀ method params request, Request.read method params = .ok request →
      s.handle view method params = s.serve view request) ∧
    (∀ request, request.IsAbout uri →
      (∃ answer, (s.serve view request).1.answer = .ok answer) ∧
        ∀ refusal, Uri.toPath uri = .error refusal →
          s.serve view request = ({ answer := .ok .nothing }, s)) ∧
    (∀ (command : Command) (second : Argument), second.IsNumber →
      ((∃ answer, (s.serve view (.executeCommand command.name
            [.json (.string uri), second])).1.answer = .ok answer) ↔
          ∃ path, Uri.toPath uri = .ok path) ∧
        ∀ refusal, Uri.toPath uri = .error refusal →
          s.serve view (.executeCommand command.name [.json (.string uri), second]) =
            ({ answer := .error (.badArguments command (.uri uri refusal)) }, s)) ∧
    ∀ refusal, Uri.toPath uri = .error refusal → text "file://" <+: uri := by
  refine ⟨fun method params request hRead => ?_, fun request hAbout => ?_,
    fun command second hNumber => ?_, fun refusal hUri => ?_⟩
  · exact State.handle_of_read hOpen view hRead
  · exact ⟨s.serve_of_isAbout view hAbout, fun refusal hUri =>
      s.serve_of_unreadable view hUri hAbout⟩
  · exact ⟨s.answer_command_isOk_iff view uri command hNumber, fun refusal hUri =>
      s.serve_command_of_unreadable view hUri command hNumber⟩
  · exact Uri.fileScheme_prefix_of_error hUri

/-- The refusal of a URI with an escape that is none. -/
theorem toPath_of_bad_escape : Uri.toPath (text "file:///%zz") =
    .error { shown := text "file:///%zz", fault := .escape (.badEscape (text "%zz")) } := by
  have hPrefix : Text.dropPrefix? Uri.fileScheme (text "file:///%zz") = some (text "/%zz") := by
    decide
  have hFragment : Text.cutAt (· == 0x23) (text "file:///%zz") = (text "file:///%zz", none) := by
    decide +kernel
  have hControl : (text "file:///%zz").any Uri.isControl = false := by decide +kernel
  have hRest : (text "file:///%zz").drop Uri.fileScheme.length = text "/%zz" := by decide
  have hPath : Uri.filePath (text "/%zz") = .error (.escape (.badEscape (text "%zz"))) := rfl
  simp only [Uri.toPath, hPrefix, hFragment, hControl, hRest, hPath, Bool.false_eq_true, if_false]

/-- Hovering finds nothing at a URI that cannot be read. A file that is not there can be
named, by its path in place of a URI, so a command has a result for it. -/
theorem unreadable_uri_is_hovered :
    (sampleServer true).initialized = true ∧
      (sampleServer true).serve sampleView (.hover (text "file:///%zz") 0) =
        ({ answer := .ok .nothing }, sampleServer true) ∧
      ∃ answer, ((sampleServer true).serve sampleView (.executeCommand
        Command.copyQualifiedPath.name
          [.json (.string (text "/w/gone.py")), .json (.ofNat 0)])).1.answer =
            .ok answer := by
  have hOpen : (sampleServer true).initialized = true :=
    (justOpened_sampleServer true).cases.1
  have hHovered := (unreadable_uris_fail_commands_only hOpen sampleView
    (text "file:///%zz")).2.1 (.hover (text "file:///%zz") 0) (.hover 0)
  have hCommand := (unreadable_uris_fail_commands_only hOpen sampleView
    (text "/w/gone.py")).2.2.1 .copyQualifiedPath (.json (.ofNat 0)) (.double _)
  exact ⟨hOpen, hHovered.2 _ toPath_of_bad_escape, hCommand.1.2 ⟨_, toPath_of_isRooted (by decide)⟩⟩

/-- A command fails on a document whose URI cannot be read, in an open session and with a
number for the line. -/
theorem unreadable_uri_fails_command :
    (sampleServer true).initialized = true ∧
      ((sampleServer true).handle sampleView (text "workspace/executeCommand")
        (some (commandParams .copyQualifiedPath (text "file:///%zz") 0))).1.answer =
          .error (.badArguments .copyQualifiedPath (.uri (text "file:///%zz")
            { shown := text "file:///%zz", fault := .escape (.badEscape (text "%zz")) })) := by
  have hOpen : (sampleServer true).initialized = true :=
    (justOpened_sampleServer true).cases.1
  have hNumber : Argument.IsNumber (.json (.ofNat 0)) := .double _
  refine ⟨hOpen, ?_⟩
  rw [State.handle_of_read hOpen sampleView
      (read_commandParams .copyQualifiedPath (text "file:///%zz") (by decide)),
    State.serve_command_of_unreadable _ _ toPath_of_bad_escape _ hNumber]

end Server

end DottedNames
