import DottedNames.Proofs.Refusals
import Mathlib.Data.List.Nodup

/-!
# Watchers that are left over

A server has one place to keep a record of a watcher, and a watcher that is not on
record cannot be stopped. When a session is told twice that the editor is ready, two
watchers feed its store and one is on record. The shutdown stops that one; the other
goes on, and the disk still changes the documents of a server that is not watching.

How many watchers are left over follows from what has happened: all that were started
on the present workspace but the last. Opening a session begins with a new workspace,
which no earlier watcher feeds. A session that is not shut down has its last watcher
on record, if it has started any.

## Main results

* `State.Accounts` — how many watchers a state has, by the number started.
* `Site.accounts_step`, `Site.accounts_run` — it is kept by whatever happens.
* `leftover_watchers` — a server that is not watching, after whatever has happened.
* `watcher_outlives_record` — a server that is not watching, and whose documents a
  change of the disk changes.
-/

namespace DottedNames

namespace Server

/-- A method has one name. -/
theorem Method.ofName?_iff {own name : Text} {method : Method} (hOwn : ofName? own = some method) :
    ofName? name = some method ↔ name = own := by
  have hMem : ∀ {n : Text}, ofName? n = some method → (n, method) ∈ table := by
    intro n h
    obtain ⟨before, after, hTable, -⟩ := List.lookup_eq_some_iff.1 h
    simp [hTable]
  have hDistinct : (table.map Prod.snd).Nodup := by decide
  refine ⟨fun h => ?_, fun h => h ▸ hOwn⟩
  exact congrArg Prod.fst (List.inj_on_of_nodup_map hDistinct (hMem h) (hMem hOwn) rfl)

namespace State

variable {s : State} {view : View}

/-- A request is refused, and changes nothing, or it is answered as its method is. -/
theorem handle_cases (s : State) (view : View) (method : Text) (params : Option Json) :
    (∃ refusal, s.handle view method params = ({ answer := .error refusal }, s)) ∨
      ∃ m given, Method.ofName? method = some m ∧ (s.initialized = true ∨ m = .startSession) ∧
        s.handle view method params = s.serve view (Request.ofParams m given) := by
  unfold handle
  split
  · exact Or.inl ⟨.notInitialized, rfl⟩
  · next hHeard =>
      have hOpen : ∀ m, Method.ofName? method = some m →
          s.initialized = true ∨ m = .startSession := by
        intro m hName
        cases hInitialized : s.initialized with
        | true => exact Or.inl rfl
        | false =>
            simp only [hInitialized, hName, Bool.not_false, Bool.true_and] at hHeard
            exact Or.inr (by simpa using hHeard)
      cases hRead : Request.read method params with
      | error rejection => cases rejection <;> exact Or.inl ⟨_, rfl⟩
      | ok request =>
          unfold Request.read at hRead
          split at hRead
          · exact absurd hRead (by simp)
          · next hName =>
              obtain rfl := Except.ok.inj hRead
              exact Or.inr ⟨.shutdown, .null, hName, hOpen _ hName, rfl⟩
          · next m _ hName =>
              cases params with
              | none => exact absurd hRead (by simp)
              | some given =>
                  simp only at hRead
                  split at hRead
                  · obtain rfl := Except.ok.inj hRead
                    exact Or.inr ⟨m, given, hName, hOpen m hName, rfl⟩
                  · exact absurd hRead (by simp)

/-! ## Accounting for watchers -/

/-- How many watchers of the present workspace are on record: one or none. -/
def onRecord (s : State) : Nat :=
  match s.recorded with
  | .present _ => 1
  | _ => 0

/-- The watchers of a state, when so many have been started on its workspace. While
the session is open all of them feed the store, the last one on record. Once it is
closed none is on record, and all but the last still feed it. -/
structure Accounts (count : Nat) (s : State) : Prop where
  opened : s.initialized = true →
    (∃ ws, s.workspace = some ws) ∧ s.abandoned.length + s.onRecord = count ∧
      (s.onRecord = 0 → count = 0)
  closed : s.initialized = false → s.recorded = .none ∧ s.abandoned.length = count - 1

theorem accounts_new (version : Text) (canNotify : Bool) : Accounts 0 { version, canNotify } :=
  ⟨fun h => absurd h (by simp), fun _ => ⟨rfl, rfl⟩⟩

/-- Watchers that react are as many as before. -/
theorem length_foldl_react (view : View) (notices : List Notice) (naming : Naming)
    (left : List Watches) (acc : Workspace × List Watches) :
    (left.foldl (fun acc watches =>
        ((acc.1.react watches view notices naming).1,
          acc.2 ++ [(acc.1.react watches view notices naming).2])) acc).2.length =
      acc.2.length + left.length := by
  induction left generalizing acc with
  | nil => rfl
  | cons watches left ih =>
      rw [List.foldl_cons, ih, List.length_append, List.length_cons, List.length_cons]
      simp only [List.length_nil]
      omega

/-- A change of the disk keeps the watchers and the record. -/
theorem observe_keeps (s : State) (view : View) (notices : List Notice) (naming : Naming) :
    (s.observe view notices naming).abandoned.length = s.abandoned.length ∧
      (s.observe view notices naming).onRecord = s.onRecord ∧
      (s.recorded = .none → (s.observe view notices naming).recorded = .none) ∧
      ((∃ ws, s.workspace = some ws) →
        ∃ ws, (s.observe view notices naming).workspace = some ws) := by
  unfold observe
  cases s.workspace with
  | none => simp
  | some ws =>
      have hLength := length_foldl_react view notices naming s.abandoned (ws, [])
      cases hRecorded : s.recorded <;> simp [onRecord, hRecorded] <;> simpa using hLength

theorem Accounts.observe {count : Nat} (h : Accounts count s) (view : View)
    (notices : List Notice) (naming : Naming) : Accounts count (s.observe view notices naming) := by
  obtain ⟨hLeft, hRecord, hNone, hWorkspace⟩ := observe_keeps s view notices naming
  have hInitialized : (s.observe view notices naming).initialized = s.initialized :=
    initialized_observe notices naming
  refine ⟨fun hOpen => ?_, fun hClosed => ?_⟩
  · rw [hLeft, hRecord]
    have hWas := h.opened (hInitialized.symm.trans hOpen)
    exact ⟨hWorkspace hWas.1, hWas.2⟩
  · rw [hLeft]
    have hWas := h.closed (hInitialized.symm.trans hClosed)
    exact ⟨hNone hWas.1, hWas.2⟩

/-- A session that is opened has a workspace of its own. -/
theorem accounts_startSession (s : State) (view : View) (rootPath rootUri : Option Text) :
    Accounts 0 (s.startSession view rootPath rootUri) := by
  refine ⟨fun _ => ⟨⟨_, rfl⟩, ?_, fun _ => rfl⟩, fun hClosed => ?_⟩
  · cases hRecorded : s.recorded <;> simp [startSession, onRecord, hRecorded]
  · exact absurd hClosed (by simp [startSession])

/-- Whether a watcher can be started on the workspace. -/
def canWatch (s : State) (view : View) : Bool :=
  match s.workspace with
  | none => false
  | some ws => (Watcher.start {} ws view).isOk

theorem Accounts.beginWatching {count : Nat} (h : Accounts count s) (hOpen : s.initialized = true)
    (view : View) :
    Accounts (if s.canWatch view then count + 1 else count) (s.beginWatching view) := by
  obtain ⟨⟨ws, hWorkspace⟩, hCount, hNone⟩ := h.opened hOpen
  simp only [canWatch, State.beginWatching, hWorkspace]
  cases hStart : Watcher.start {} ws view with
  | error failure => exact h
  | ok started =>
      refine ⟨fun _ => ⟨⟨_, rfl⟩, ?_, fun hBad => absurd hBad (by simp [onRecord])⟩,
        fun hClosed => absurd (hOpen.symm.trans hClosed) (by simp)⟩
      -- the watcher that was on record, if any, joins those left over
      show List.length _ + 1 = count + 1
      cases hRecorded : s.recorded with
      | none | former =>
          have hFirst : count = 0 := hNone (by simp [onRecord, hRecorded])
          simp only [onRecord, hRecorded] at hCount ⊢
          omega
      | present watches =>
          simp only [onRecord, hRecorded] at hCount ⊢
          rw [List.length_append, List.length_singleton]
          omega

theorem Accounts.shutdown {count : Nat} (h : Accounts count s) (hOpen : s.initialized = true) :
    Accounts count { s with initialized := false, recorded := .none } := by
  obtain ⟨-, hCount, hNone⟩ := h.opened hOpen
  refine ⟨fun hBad => absurd hBad (by simp), fun _ => ⟨rfl, ?_⟩⟩
  show s.abandoned.length = count - 1
  unfold onRecord at hCount hNone
  split at hCount
  · omega
  · have hZero := hNone (by split <;> simp_all)
    omega

theorem Accounts.of_keeps {count : Nat} (h : Accounts count s) {ws : Workspace} {next : State}
    (hKeeps : Keeps view ws s next) : Accounts count next := by
  obtain ⟨hInitialized, hRecorded, hAbandoned, store, -, hWorkspace⟩ := hKeeps
  have hRecord : next.onRecord = s.onRecord := by simp [onRecord, hRecorded]
  refine ⟨fun hOpen => ?_, fun hClosed => ?_⟩
  · rw [hAbandoned, hRecord]
    exact ⟨⟨_, hWorkspace⟩, (h.opened (hInitialized.symm.trans hOpen)).2⟩
  · rw [hAbandoned, hRecorded]
    exact h.closed (hInitialized.symm.trans hClosed)

/-- The watchers left over by a state in which none is on record. -/
theorem Accounts.left_over {count : Nat} (h : Accounts count s) (hNone : s.isWatching = false) :
    s.abandoned.length = count - 1 := by
  cases hOpen : s.initialized with
  | false => exact (h.closed hOpen).2
  | true =>
      obtain ⟨-, hCount, hFirst⟩ := h.opened hOpen
      have hRecord : s.onRecord = 0 := by
        unfold isWatching at hNone
        unfold onRecord
        split at hNone <;> simp_all
      have hZero := hFirst hRecord
      omega

/-- Where no watcher feeds the store, no change of the disk reaches it. -/
theorem observe_of_unwatched (hNone : s.isWatching = false) (hLeft : s.abandoned = [])
    (view : View) (notices : List Notice) (naming : Naming) :
    s.observe view notices naming = s := by
  obtain ⟨version, canNotify, initialized, trace, workspace, recorded, abandoned⟩ := s
  obtain rfl : abandoned = [] := hLeft
  cases workspace with
  | none => rfl
  | some ws =>
      cases recorded with
      | none | former => rfl
      | present watches => exact absurd hNone (by simp [isWatching])

end State

namespace Site

/-- Whether something that happens starts a watcher: the editor says that it is ready,
and the workspace can be watched. -/
def starts (site : Site) : Happening → Bool
  | .disk _ => false
  | .request method params =>
    method == text "initialized" && (site.state.handle site.view method params).1.answer.isOk &&
      site.state.canWatch site.view

/-- The number of watchers started on the present workspace, after one more thing has
happened. -/
def tally (site : Site) (count : Nat) (x : Happening) : Nat :=
  if site.opens x then 0 else if site.starts x then count + 1 else count

/-- The number of watchers started on the present workspace, after some more things
have happened. -/
def tallyOver (site : Site) (count : Nat) : List Happening → Nat
  | [] => count
  | x :: xs => (site.step x).tallyOver (site.tally count x) xs

variable {site : Site} {count : Nat}

theorem tally_of_refused {method : Text} {params : Option Json} {refusal : Refusal}
    (h : site.state.handle site.view method params =
      ({ answer := .error refusal }, site.state)) :
    site.tally count (.request method params) = count := by
  simp [tally, opens, starts, h, Except.isOk, Except.toBool]

/-- No other method opens a session or starts a watcher. -/
theorem tally_of_other {method : Text} {m : Method} (hName : Method.ofName? method = some m)
    (hOpens : m ≠ .startSession) (hStarts : m ≠ .sessionReady) (params : Option Json) :
    site.tally count (.request method params) = count := by
  have hInitialize : method ≠ text "initialize" := by
    rintro rfl
    exact hOpens (Option.some.inj (hName.symm.trans (by decide)))
  have hInitialized : method ≠ text "initialized" := by
    rintro rfl
    exact hStarts (Option.some.inj (hName.symm.trans (by decide)))
  simp [tally, opens, starts, hInitialize, hInitialized]

/-- One thing that happens keeps the accounts. -/
theorem accounts_step (h : State.Accounts count site.state) (x : Happening) :
    State.Accounts (site.tally count x) (site.step x).state := by
  cases x with
  | disk changes => exact h.observe _ _ _
  | request method params =>
      show State.Accounts _ (site.state.handle site.view method params).2
      obtain ⟨refusal, hRefused⟩ | ⟨m, given, hName, hOpen, hServed⟩ :=
        site.state.handle_cases site.view method params
      · rw [tally_of_refused hRefused, hRefused]
        exact h
      · cases m with
        | startSession =>
            have hOwn : Method.ofName? (text "initialize") = some .startSession := by decide
            obtain rfl := (Method.ofName?_iff hOwn).1 hName
            have hTally : site.tally count (.request (text "initialize") params) = 0 := by
              simp [tally, opens, hServed, Request.ofParams, State.serve, Except.isOk,
                Except.toBool]
            rw [hTally, hServed]
            exact State.accounts_startSession _ _ _ _
        | sessionReady =>
            have hOwn : Method.ofName? (text "initialized") = some .sessionReady := by decide
            obtain rfl := (Method.ofName?_iff hOwn).1 hName
            have hTally : site.tally count (.request (text "initialized") params) =
                if site.state.canWatch site.view then count + 1 else count := by
              have hOther : text "initialized" ≠ text "initialize" := by decide
              simp [hOther, tally, opens, starts, hServed, Request.ofParams, State.serve,
                Except.isOk, Except.toBool]
            rw [hTally, hServed]
            exact h.beginWatching (by simpa using hOpen) site.view
        | shutdown =>
            rw [tally_of_other hName (by decide) (by decide), hServed]
            exact h.shutdown (by simpa using hOpen)
        | setTrace | didOpen | didChange | didClose | didSave | hover | codeAction
        | executeCommand =>
            rw [tally_of_other hName (by decide) (by decide), hServed]
            obtain ⟨⟨ws, hWorkspace⟩, -⟩ := h.opened (by simpa using hOpen)
            exact h.of_keeps (State.keeps_serve hWorkspace rfl given)

theorem accounts_run (happenings : List Happening) (h : State.Accounts count site.state) :
    State.Accounts (site.tallyOver count happenings) (site.run happenings).state := by
  induction happenings generalizing site count with
  | nil => exact h
  | cons x xs ih => exact ih (accounts_step h x)

end Site

/-- Take a new server, let anything happen to it, and let no watcher be on record
afterwards. Then all the watchers started on the present workspace are left over but
the last, and they are the ones that still hear of the disk. So if at most one was
started, no change of the disk changes anything. -/
theorem leftover_watchers (version : Text) (canNotify : Bool) (view : View)
    (happenings : List Happening) :
    let site : Site := { view, state := { version, canNotify } }
    (site.run happenings).state.isWatching = false →
      (site.run happenings).state.abandoned.length = site.tallyOver 0 happenings - 1 ∧
      (site.tallyOver 0 happenings ≤ 1 →
        ∀ changes, ((site.run happenings).step (.disk changes)).state =
          (site.run happenings).state) := by
  intro site hNone
  have hAccounts : State.Accounts (site.tallyOver 0 happenings) (site.run happenings).state :=
    Site.accounts_run happenings (State.accounts_new version canNotify)
  have hLeft := hAccounts.left_over hNone
  refine ⟨hLeft, fun hOne changes => ?_⟩
  have hNobody : (site.run happenings).state.abandoned = [] :=
    List.eq_nil_of_length_eq_zero (by omega)
  exact State.observe_of_unwatched hNone hNobody _ _ _

/-- A session that is opened, made ready and shut down. -/
def plainLife : List Happening :=
  [.request (text "initialize") smallSession, .request (text "initialized") (some (.object [])),
    .request (text "shutdown") none]

/-- Once the session is shut down the file may go, and its document stays. -/
theorem leftover_watchers_of_plainLife :
    let site : Site := { view := smallView, state := { version := [] } }
    site.tallyOver 0 plainLife = 1 ∧ (site.run plainLife).state.isWatching = false ∧
      ((site.run plainLife).step (.disk [.remove (text "/w/a.py")])).state =
        (site.run plainLife).state := by
  refine ⟨by decide +kernel, by decide +kernel, ?_⟩
  exact (leftover_watchers [] true smallView plainLife (by decide +kernel)).2 (by decide +kernel) _

/-- A session that is made ready twice before it is shut down. -/
def twiceReady : List Happening :=
  [.request (text "initialize") smallSession, .request (text "initialized") (some (.object [])),
    .request (text "initialized") (some (.object [])), .request (text "shutdown") none]

/-- A server that is not watching may still lose a document to a change of the disk:
the first of two watchers outlives the record. -/
theorem watcher_outlives_record :
    ¬ ∀ (version : Text) (canNotify : Bool) (view : View) (happenings : List Happening)
        (changes : List Change),
      let site : Site := { view, state := { version, canNotify } }
      (site.run happenings).state.isWatching = false →
        ((site.run happenings).step (.disk changes)).state.workspace.map Workspace.store =
          (site.run happenings).state.workspace.map Workspace.store := by
  intro h
  have hSame := h [] true smallView twiceReady [.remove (text "/w/a.py")] (by decide +kernel)
  exact absurd hSame (by decide +kernel)

end Server

end DottedNames
