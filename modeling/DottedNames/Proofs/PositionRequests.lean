import DottedNames.Proofs.FrontEnds

/-!
# Asking about a position

An editor asks about a line of a document in three ways: what is shown there, what
can be done there, and to do it. The line comes as part of a position, as an
argument that the server itself made up, or as the number that argument became on
its way to the editor and back. All three ways have to lead to the same element.

The first question about a document puts its copy on disk into the store, so a
question can change the state. What it cannot change is what is seen: `Store.shown`
lays the store over the disk, and filling in from the disk below leaves the overlay
as it was. The answers depend on the state through what is shown alone, so one step
of asking keeps all of them, and so does any number of steps.

## Main results

* `Store.linesOf_eq`, `Store.shown_linesOf` — a document's lines are those shown,
  and asking for them does not change what is shown.
* `State.ask_of_alike`, `State.alike_run` — questions are answered from what is
  shown, and asking keeps that.
* `position_requests_agree` — the three ways of asking about a position agree.
-/

namespace DottedNames

namespace Store

/-- The lines that are seen under a path: those of the store, laid over those of the
disk. -/
def shown (store : Store) (view : View) (path : Text) : Option Document :=
  match store.get? path with
  | some doc => some doc.lines
  | none =>
    match view.read path with
    | .ok content => some (Text.lines content)
    | .error _ => none

theorem linesOf_eq (store : Store) (view : View) (path : Text) :
    (store.linesOf view path).1 = store.shown view path := by
  unfold linesOf shown
  cases hHeld : store.get? path with
  | some doc => rfl
  | none =>
      cases hRead : view.read path with
      | ok content => simp [scanned_of_read hRead, get?_commit_absent hHeld]
      | error failure => simp [scanned_of_error hRead, hHeld]

/-- Asking for the lines of a document changes nothing that is seen. -/
theorem shown_linesOf (store : Store) (view : View) (path other : Text) :
    (store.linesOf view path).2.shown view other = store.shown view other := by
  unfold linesOf
  cases hHeld : store.get? path with
  | some doc => rfl
  | none =>
      by_cases hSame : other = path
      · -- the copy that comes in is the one that was seen through the gap
        subst hSame
        cases hRead : view.read other with
        | ok content =>
            simp [shown, scanned_of_read hRead, get?_commit_absent hHeld, hHeld, hRead]
        | error failure => simp [scanned_of_error hRead]
      · simp only [shown, get?_scanned_of_ne store view hSame]

end Store

namespace Server

namespace State

/-- The lines that a server sees under a path. -/
def shown (s : State) (view : View) (path : Text) : Option Document :=
  s.workspace.bind fun ws => ws.store.shown view path

/-- The element that a server sees at a line. -/
def seen (s : State) (view : View) (path : Text) (line : Int64) : Option Element :=
  (s.shown view path).map fun doc => Document.elementAt view doc line path

theorem elementAt_eq (s : State) (view : View) (path : Text) (line : Int64) :
    (s.elementAt view path line).1 = s.seen view path line := by
  unfold elementAt seen shown
  cases s.workspace with
  | none => rfl
  | some ws => simp [Store.elementAt, Store.linesOf_eq]

/-- What a question comes to. -/
def ask (s : State) (view : View) (request : Request) : Outcome := (s.serve view request).1

/-! ## One question -/

/-- Two states in which the same is seen. -/
def Alike (view : View) (s t : State) : Prop :=
  t.canNotify = s.canNotify ∧ ∀ path, t.shown view path = s.shown view path

theorem alike_self (view : View) (s : State) : Alike view s s := ⟨rfl, fun _ => rfl⟩

theorem alike_elementAt (s : State) (view : View) (path : Text) (line : Int64) :
    Alike view s (s.elementAt view path line).2 := by
  unfold elementAt
  cases hWorkspace : s.workspace with
  | none => exact alike_self view s
  | some ws =>
      refine ⟨rfl, fun other => ?_⟩
      simp only [shown, hWorkspace, Option.bind_some, Store.elementAt]
      exact Store.shown_linesOf ws.store view path other

/-- What is shown about a line. -/
theorem hover_eq (s : State) (view : View) (uri : Text) (line : UInt32) :
    (s.hover view uri line).1 =
      match (pythonPath? uri).bind fun path => s.seen view path (Int64.ofNat line.toNat) with
      | some e => if e.toNames.isEmpty then .nothing else .hover (hoverMarkdown e)
      | none => .nothing := by
  unfold hover
  cases pythonPath? uri with
  | none => rfl
  | some path =>
      simp only [Option.bind_some, ← elementAt_eq]
      rcases s.elementAt view path (Int64.ofNat line.toNat) with ⟨_ | e, next⟩ <;> rfl

theorem alike_hover (s : State) (view : View) (uri : Text) (line : UInt32) :
    Alike view s (s.hover view uri line).2 := by
  unfold hover
  cases pythonPath? uri with
  | none => exact alike_self view s
  | some path =>
      have hAlike := alike_elementAt s view path (Int64.ofNat line.toNat)
      simp only
      split <;> next hAt => rwa [hAt] at hAlike

/-- What a command comes to. -/
theorem runCommand_eq (s : State) (view : View) (command : Command) (path : Text) (line : Int64) :
    (s.runCommand view command path line).1 =
      if Path.isPython path then
        match s.seen view path line with
        | some e =>
          { answer := .ok (.copied (command.render e)),
            messages := s.sends .info (text "Copied: " ++ command.render e) }
        | none =>
          { answer := .ok .nothing, messages := s.sends .error (text "Cannot read " ++ path) }
      else
        { answer := .ok .nothing,
          messages := s.sends .info (text "Only works on Python files.") } := by
  unfold runCommand
  by_cases hPython : Path.isPython path = true
  · simp only [hPython, Bool.not_true, Bool.false_eq_true, if_false, if_true, ← elementAt_eq]
    rcases s.elementAt view path line with ⟨_ | e, next⟩ <;> rfl
  · simp [hPython]

theorem alike_runCommand (s : State) (view : View) (command : Command) (path : Text)
    (line : Int64) : Alike view s (s.runCommand view command path line).2 := by
  unfold runCommand
  split
  · exact alike_self view s
  · have hAlike := alike_elementAt s view path line
    split <;> next hAt => rwa [hAt] at hAlike

theorem alike_executeCommand (s : State) (view : View) (name : Text) (arguments : List Argument) :
    Alike view s (s.executeCommand view name arguments).2 := by
  unfold executeCommand
  split
  · exact alike_self view s
  · split
    · exact alike_self view s
    · exact alike_runCommand s view _ _ _

/-! ## Any number of questions -/

end State

/-- Whether a request only asks. -/
def Request.isQuestion : Request → Bool
  | .hover _ _ | .codeAction _ _ | .executeCommand _ _ => true
  | _ => false

namespace State

/-- Asking does not change what is seen. -/
theorem alike_serve (s : State) (view : View) {request : Request}
    (h : request.isQuestion = true) : Alike view s (s.serve view request).2 := by
  cases request with
  | hover uri line => exact alike_hover s view uri line
  | codeAction uri line => exact alike_self view s
  | executeCommand name arguments => exact alike_executeCommand s view name arguments
  | _ => simp [Request.isQuestion] at h

theorem Alike.seen {view : View} {s t : State} (h : Alike view s t) (path : Text) (line : Int64) :
    t.seen view path line = s.seen view path line := by
  rw [State.seen, h.2 path, State.seen]

theorem Alike.sends {view : View} {s t : State} (h : Alike view s t) (severity : Severity)
    (content : Text) : t.sends severity content = s.sends severity content := by
  rw [State.sends, h.1, State.sends]

/-- A question is answered from what is seen. -/
theorem ask_of_alike {view : View} {s t : State} (hAlike : Alike view s t) {request : Request}
    (h : request.isQuestion = true) : t.ask view request = s.ask view request := by
  cases request with
  | hover uri line =>
      have hSame : (t.hover view uri line).1 = (s.hover view uri line).1 := by
        simp only [hover_eq, hAlike.seen]
      simp only [ask, serve, hSame]
  | codeAction uri line => rfl
  | executeCommand name arguments =>
      simp only [ask, serve, executeCommand]
      split
      · rfl
      · split
        · rfl
        · simp only [runCommand_eq, hAlike.seen, hAlike.sends]
  | _ => simp [Request.isQuestion] at h

/-- The state after some requests in order. -/
def afterAll (s : State) (view : View) (requests : List Request) : State :=
  requests.foldl (fun s request => (s.serve view request).2) s

/-- Any number of questions leave what is seen as it was. -/
theorem alike_run (s : State) (view : View) {questions : List Request}
    (h : ∀ question ∈ questions, question.isQuestion = true) :
    Alike view s (s.afterAll view questions) := by
  induction questions generalizing s with
  | nil => exact alike_self view s
  | cons question questions ih =>
      have hFirst := alike_serve s view (h question (by simp))
      have hRest := ih (s.serve view question).2 fun q hq => h q (by simp [hq])
      exact ⟨hRest.1.trans hFirst.1, fun path => (hRest.2 path).trans (hFirst.2 path)⟩

end State

/-! ## Commands at a line -/

/-- The request for a command at a line, as an editor makes it. -/
def commandRequest (command : Command) (uri : Text) (line : UInt32) : Request :=
  .executeCommand command.name [.json (.string uri), .json (.ofNat line.toNat)]

theorem line_lt_significand (line : UInt32) : line.toNat < 2 ^ Json.significandBits :=
  Nat.lt_trans line.toNat_lt (by decide)

/-- Whatever stands for the line, the command runs on the path that the URI names. -/
theorem State.ask_command (s : State) (view : View) (command : Command) (uri : Text)
    {second : Argument} {line : Int64} (h : second.line? = some line) :
    s.ask view (.executeCommand command.name [.json (.string uri), second]) =
      match Uri.toPath uri with
      | .ok path => (s.runCommand view command path line).1
      | .error refusal => { answer := .error (.badArguments command (.uri uri refusal)) } := by
  have hUri : (Argument.json (.string uri)).text? = some uri := rfl
  simp only [ask, serve, executeCommand, ofName?_name, readArguments, hUri, h]
  cases Uri.toPath uri <;> rfl

theorem State.ask_commandRequest (s : State) (view : View) (command : Command) (uri : Text)
    (line : UInt32) :
    s.ask view (commandRequest command uri line) =
      match Uri.toPath uri with
      | .ok path => (s.runCommand view command path (Int64.ofNat line.toNat)).1
      | .error refusal => { answer := .error (.badArguments command (.uri uri refusal)) } :=
  s.ask_command view command uri (line?_ofNat (line_lt_significand line))

/-- The server's own line and the number it becomes are the same argument. -/
theorem State.ask_unsigned (s : State) (view : View) (command : Command) (uri : Text)
    (line : UInt32) :
    s.ask view (.executeCommand command.name [.json (.string uri), .unsigned line]) =
      s.ask view (commandRequest command uri line) := by
  rw [s.ask_command view command uri rfl, s.ask_commandRequest]

/-! ### Over the wire and back -/

/-- What an editor finds under `command` in an action, and sends back. -/
def Action.commandJson (a : Action) : Json :=
  record [("title", .string a.command.title), ("command", .string a.command.name),
    ("arguments", .array [.string a.uri, .ofNat a.line.toNat])]

theorem valuesOf_actionJson (title kind command : Json) :
    valuesOf "command" [(text "title", title), (text "kind", kind), (text "command", command)] =
      [command] := rfl

theorem valuesOf_commandJson (title name arguments : Json) :
    valuesOf "workDoneToken"
        [(text "title", title), (text "command", name), (text "arguments", arguments)] = [] ∧
      valuesOf "command"
        [(text "title", title), (text "command", name), (text "arguments", arguments)] = [name] ∧
      valuesOf "arguments"
        [(text "title", title), (text "command", name), (text "arguments", arguments)] =
          [arguments] :=
  ⟨rfl, rfl, rfl⟩

theorem reach_command (a : Action) : reach ["command"] a.toJson = [a.commandJson] := by
  simp [reach, Action.toJson, record, valuesOf_actionJson, Action.commandJson]

/-- An action that is sent back asks for its command at its line. -/
theorem read_commandJson (a : Action) :
    Request.read (text "workspace/executeCommand") (some a.commandJson) =
      .ok (commandRequest a.command a.uri a.line) := by
  obtain ⟨hToken, hCommand, hArguments⟩ := valuesOf_commandJson (.string a.command.title)
    (.string a.command.name) (.array [.string a.uri, .ofNat a.line.toNat])
  exact read_executeCommand (line_lt_significand a.line) hToken hCommand hArguments

/-- In an open session a request that can be read is served. -/
theorem State.handle_of_read {s : State} (hOpen : s.initialized = true) (view : View)
    {method : Text} {params : Option Json} {request : Request}
    (h : Request.read method params = .ok request) :
    s.handle view method params = s.serve view request := by
  simp [handle, hOpen, h]

/-! ## Agreement -/

/-- The messages that go with the outcome of a command: one that says what was
copied, one that says something else, or none. -/
def Outcome.Notifies (o : Outcome) : Prop :=
  match o.answer with
  | .ok (.copied result) =>
    o.messages = [{ severity := .info, content := text "Copied: " ++ result }]
  | .ok .nothing => ∃ m, o.messages = [m] ∧ ∀ result, m.content ≠ text "Copied: " ++ result
  | .ok _ => False
  | .error _ => o.messages = []

/-- Sending the command of an action comes to a given outcome and is no error,
whether the server's own arguments are taken or those that the editor got. -/
structure State.Yields (s : State) (view : View) (a : Action) (outcome : Outcome) : Prop where
  inside :
    s.ask view (.executeCommand a.command.name [.json (.string a.uri), .unsigned a.line]) = outcome
  back : ∃ sent, reach ["command"] a.toJson = [sent] ∧
    (s.handle view (text "workspace/executeCommand") (some sent)).1 = outcome
  accepted : ∀ refusal, outcome.answer ≠ .error refusal

/-- The requests about a line of a document agree with each other. -/
structure PositionAgreement (s : State) (view : View) (uri : Text) (line : UInt32) : Prop where
  /-- Nothing is offered where the URI cannot be read or names no Python file. -/
  unoffered : (s.ask view (.codeAction uri line)).answer = .ok .nothing ↔
    (∃ refusal, Uri.toPath uri = .error refusal) ∨
      ∃ path, Uri.toPath uri = .ok path ∧ Path.isPython path = false
  /-- What is offered does what it says. -/
  offered : (s.ask view (.codeAction uri line)).answer ≠ .ok .nothing →
    ∃ qualified imported,
      (s.ask view (.codeAction uri line)).answer = .ok (.actions [qualified, imported]) ∧
        s.Yields view qualified (s.ask view (commandRequest .copyQualifiedPath uri line)) ∧
          s.Yields view imported (s.ask view (commandRequest .copyImportStatement uri line))
  /-- Something is shown where something is offered, the document can be read and
  the line defines something. -/
  hovers : (s.ask view (.hover uri line)).answer ≠ .ok .nothing ↔
    (s.ask view (.codeAction uri line)).answer ≠ .ok .nothing ∧
      ∃ path doc, Uri.toPath uri = .ok path ∧ s.shown view path = some doc ∧
        (Document.elementAt view doc (Int64.ofNat line.toNat) path).toNames.isEmpty = false
  /-- What is shown is what the commands yield. -/
  hovered : (s.ask view (.hover uri line)).answer ≠ .ok .nothing →
    ∃ q i, (s.ask view (commandRequest .copyQualifiedPath uri line)).answer = .ok (.copied q) ∧
      (s.ask view (commandRequest .copyImportStatement uri line)).answer = .ok (.copied i) ∧
        (s.ask view (.hover uri line)).answer =
          .ok (.hover (text "`" ++ q ++ text "`\n\n```python\n" ++ i ++ text "\n```"))
  /-- Every command sends the message that goes with its outcome. -/
  notified : s.canNotify = true →
    ∀ name arguments, (s.ask view (.executeCommand name arguments)).Notifies
  /-- No question changes the answer to another. -/
  undisturbed : ∀ questions : List Request, (∀ q ∈ questions, q.isQuestion = true) →
    ∀ question : Request, question.isQuestion = true →
      (s.afterAll view questions).ask view question = s.ask view question

/-- A command sends the message that goes with its outcome. -/
theorem State.notifies_ask {s : State} (hNotify : s.canNotify = true) (view : View) (name : Text)
    (arguments : List Argument) : (s.ask view (.executeCommand name arguments)).Notifies := by
  -- both other messages differ from a report of copying in one of the first two bytes
  have hOther : ∀ m : Text, m.take 2 ≠ text "Co" → ∀ result, m ≠ text "Copied: " ++ result := by
    rintro m hStart result rfl
    exact hStart rfl
  simp only [ask, serve, executeCommand]
  split
  · rfl
  · split
    · rfl
    · rw [runCommand_eq]
      split
      · split
        · simp [Outcome.Notifies, sends, hNotify]
        · refine ⟨_, if_pos hNotify, hOther _ fun hStart => ?_⟩
          have hBytes : text "Ca" = text "Co" := hStart
          exact absurd hBytes (by decide)
      · exact ⟨_, if_pos hNotify, hOther _ (by decide)⟩

/-! ### Where something is offered -/

theorem pythonPath?_eq_none_iff (uri : Text) :
    State.pythonPath? uri = none ↔
      (∃ refusal, Uri.toPath uri = .error refusal) ∨
        ∃ path, Uri.toPath uri = .ok path ∧ Path.isPython path = false := by
  unfold State.pythonPath?
  cases Uri.toPath uri with
  | error refusal => simp
  | ok path => by_cases hPython : Path.isPython path = true <;> simp [hPython]

theorem of_pythonPath? {uri path : Text} (h : State.pythonPath? uri = some path) :
    Uri.toPath uri = .ok path ∧ Path.isPython path = true := by
  unfold State.pythonPath? at h
  split at h
  · next named hNamed =>
      split at h
      · next hPython =>
          obtain rfl := Option.some.inj h
          exact ⟨hNamed, hPython⟩
      · exact absurd h (by simp)
  · exact absurd h (by simp)

/-- Nothing is offered exactly where no Python file is named. -/
theorem codeAction_eq_nothing_iff (uri : Text) (line : UInt32) :
    State.codeAction uri line = .nothing ↔ State.pythonPath? uri = none := by
  unfold State.codeAction
  cases State.pythonPath? uri <;> simp

theorem codeAction_of_path {uri path : Text} (h : State.pythonPath? uri = some path)
    (line : UInt32) :
    State.codeAction uri line =
      .actions [{ command := .copyQualifiedPath, uri, line },
        { command := .copyImportStatement, uri, line }] := by
  simp only [State.codeAction, h]
  rfl

/-- A command at a line of a Python file yields what it makes of the element seen
there. -/
theorem State.ask_commandRequest_of_path (s : State) (view : View) (command : Command)
    {uri path : Text} (h : pythonPath? uri = some path) (line : UInt32) :
    (s.ask view (commandRequest command uri line)).answer =
      match s.seen view path (Int64.ofNat line.toNat) with
      | some e => .ok (.copied (command.render e))
      | none => .ok .nothing := by
  obtain ⟨hPath, hPython⟩ := of_pythonPath? h
  rw [ask_commandRequest, hPath]
  simp only [runCommand_eq, hPython, if_true]
  cases s.seen view path (Int64.ofNat line.toNat) <;> rfl

/-- An action for a line of a Python file yields what its command does. -/
theorem State.yields_action {s : State} (hOpen : s.initialized = true) (view : View)
    {a : Action} {path : Text} (h : pythonPath? a.uri = some path) :
    s.Yields view a (s.ask view (commandRequest a.command a.uri a.line)) where
  inside := s.ask_unsigned view a.command a.uri a.line
  back := by
    refine ⟨a.commandJson, reach_command a, ?_⟩
    rw [handle_of_read hOpen view (read_commandJson a), ask]
  accepted refusal := by
    rw [s.ask_commandRequest_of_path view a.command h]
    cases s.seen view path (Int64.ofNat a.line.toNat) <;> simp

/-- Something is shown exactly where a Python file is named and an element with a
name is seen. -/
theorem State.hover_ne_nothing_iff (s : State) (view : View) (uri : Text) (line : UInt32) :
    (s.hover view uri line).1 ≠ .nothing ↔
      ∃ path e, pythonPath? uri = some path ∧
        s.seen view path (Int64.ofNat line.toNat) = some e ∧ e.toNames.isEmpty = false := by
  rw [hover_eq]
  cases pythonPath? uri with
  | none => simp
  | some path =>
      simp only [Option.bind_some]
      cases hSeen : s.seen view path (Int64.ofNat line.toNat) with
      | none => simp [hSeen]
      | some e => by_cases hEmpty : e.toNames.isEmpty = true <;> simp [hEmpty, hSeen]

theorem State.ask_codeAction (s : State) (view : View) (uri : Text) (line : UInt32) :
    (s.ask view (.codeAction uri line)).answer = .ok (codeAction uri line) := rfl

theorem State.ask_hover (s : State) (view : View) (uri : Text) (line : UInt32) :
    (s.ask view (.hover uri line)).answer = .ok (s.hover view uri line).1 := rfl

/-- The three ways of asking about a line of a document agree. -/
theorem position_requests_agree {s : State} (hOpen : s.initialized = true) (view : View)
    (uri : Text) (line : UInt32) : PositionAgreement s view uri line := by
  have hNone : (s.ask view (.codeAction uri line)).answer = .ok .nothing ↔
      State.pythonPath? uri = none := by
    rw [State.ask_codeAction, Except.ok.injEq, codeAction_eq_nothing_iff]
  have hOffers : (s.ask view (.codeAction uri line)).answer ≠ .ok .nothing ↔
      ∃ path, State.pythonPath? uri = some path := by
    rw [Ne, hNone, ← Ne, Option.ne_none_iff_exists']
  have hShows : (s.ask view (.hover uri line)).answer ≠ .ok .nothing ↔
      ∃ path e, State.pythonPath? uri = some path ∧
        s.seen view path (Int64.ofNat line.toNat) = some e ∧ e.toNames.isEmpty = false := by
    rw [State.ask_hover, Ne, Except.ok.injEq, ← Ne, State.hover_ne_nothing_iff]
  refine ⟨?_, fun hSome => ?_, ?_, fun hSome => ?_, fun hNotify => s.notifies_ask hNotify view, ?_⟩
  · rw [hNone, pythonPath?_eq_none_iff]
  · obtain ⟨path, hPath⟩ := hOffers.1 hSome
    refine ⟨{ command := .copyQualifiedPath, uri, line },
      { command := .copyImportStatement, uri, line }, ?_, State.yields_action hOpen view hPath,
      State.yields_action hOpen view hPath⟩
    rw [State.ask_codeAction, codeAction_of_path hPath]
  · rw [hOffers, hShows]
    constructor
    · rintro ⟨path, e, hPath, hSeen, hName⟩
      obtain ⟨doc, hDoc, rfl⟩ := Option.map_eq_some_iff.1 hSeen
      exact ⟨⟨path, hPath⟩, path, doc, (of_pythonPath? hPath).1, hDoc, hName⟩
    · rintro ⟨⟨path, hPath⟩, named, doc, hNamed, hDoc, hName⟩
      obtain rfl : named = path := Except.ok.inj (hNamed.symm.trans (of_pythonPath? hPath).1)
      exact ⟨named, _, hPath, Option.map_eq_some_iff.2 ⟨doc, hDoc, rfl⟩, hName⟩
  · obtain ⟨path, e, hPath, hSeen, hName⟩ := hShows.1 hSome
    refine ⟨e.qualifiedPath, e.importStatement, ?_, ?_, ?_⟩
    · rw [s.ask_commandRequest_of_path view _ hPath, hSeen]
      rfl
    · rw [s.ask_commandRequest_of_path view _ hPath, hSeen]
      rfl
    · rw [State.ask_hover, State.hover_eq, hPath, Option.bind_some, hSeen]
      simp only [hName, Bool.false_eq_true, if_false]
      rfl
  · intro questions hQuestions question hQuestion
    exact State.ask_of_alike (s.alike_run view hQuestions) hQuestion

/-- On the method of a class the requests agree, and each has something to say. -/
theorem position_requests_agree_on_method :
    PositionAgreement (sampleServer true) sampleView (text "file:///w/a.py") 1 ∧
      ((sampleServer true).ask sampleView (.hover (text "file:///w/a.py") 1)).answer =
        .ok (.hover (text "`a.K.m`\n\n```python\nfrom a import K\n```")) := by
  have hShown : ((sampleServer true).hover sampleView (text "file:///w/a.py") 1).1 =
      .hover (text "`a.K.m`\n\n```python\nfrom a import K\n```") := by
    decide +kernel
  refine ⟨position_requests_agree (justOpened_sampleServer true).cases.1 sampleView _ 1, ?_⟩
  rw [State.ask_hover, hShown]

end Server

end DottedNames
