import AgentConsole.Proofs.Disk.Contents
import AgentConsole.Welcome.Store

/-!
# The welcome text is a register

A command names an action by any text and may come with content.  Most commands that can be thought
of are refused, and some of them look like edits.  All of them leave what is stored alone, and so do
views; an edit replaces it, and from then on every view shows its content behind the marker of
stored texts.  So what is shown depends on the last edit that was carried out and on nothing else.

A store that just remembers the text does this by definition.  One that keeps it in a file does the
same (`Welcome.Store.obey_of_holds`), where a file that is not there and an empty one must not be
taken for each other, and neither must a text that looks like the default and the default.

* `Welcome.Store.Holds` : a file holds what is stored and can be replaced.
* `Welcome.Store.holds_obeyAll` : what the file holds after any commands.
* `Welcome.Store.view_shows_latest` : what commands come to.
-/

namespace AgentConsole.Welcome

/-! ## What is shown -/

/-- The markers differ in their second character, so it does not matter what comes after them. -/
theorem marked_ne (text default : String) :
    "*.*\n" ++ text ≠ "*welcome to strands!*\n" ++ default := by
  intro h
  have hsecond := congrArg (·.toList[1]?) h
  simp [String.toList_append] at hsecond

theorem present_some_ne_present_none (text : String) : present (some text) ≠ present none :=
  marked_ne text defaultText

/-- Different texts are shown differently, and none of them like the default. -/
theorem present_injective : Function.Injective present := by
  rintro (_ | text) (_ | text') h
  · rfl
  · exact absurd h.symm (present_some_ne_present_none text')
  · exact absurd h (present_some_ne_present_none text)
  · exact congrArg some ((String.append_right_inj _).mp h)

/-! ## Commands -/

/-- What the user asks for: an action by its name, with content or without. -/
structure Command where
  action : String
  content : Option String
  deriving DecidableEq

/-- Why a command has not been carried out. -/
inductive Failure where
  | refused (e : RequestError)
  | io (e : IoError)
  deriving DecidableEq

/-- The text that a command stores, if it is an edit with content. -/
def Command.stores? (c : Command) : Option String :=
  if c.action = "edit" then c.content else none

/-- A command is refused, or is a view, or is an edit with the content that it stores. -/
theorem Command.parse_cases (c : Command) :
    (∃ e, Action.parse c.action c.content = .error e ∧ c.stores? = none) ∨
      (Action.parse c.action c.content = .ok .view ∧ c.stores? = none) ∨
      ∃ content, Action.parse c.action c.content = .ok (.edit content) ∧
        c.stores? = some content := by
  obtain ⟨action, content⟩ := c
  by_cases hview : action = "view"
  · subst hview
    exact .inr (.inl ⟨rfl, rfl⟩)
  by_cases hedit : action = "edit"
  · subst hedit
    cases content with
    | none => exact .inl ⟨_, rfl, rfl⟩
    | some content => exact .inr (.inr ⟨content, rfl, rfl⟩)
  · exact .inl ⟨.unknownWelcomeAction action, by simp [Action.parse, hview, hedit],
      by simp [stores?, hedit]⟩

/-- What is stored after some commands: the content of the last edit, or else what was stored
before. -/
def latest (initial : Option String) (commands : List Command) : Option String :=
  (commands.filterMap Command.stores?).getLast?.or initial

theorem latest_cons (initial : Option String) (c : Command) (commands : List Command) :
    latest initial (c :: commands) = latest (c.stores?.or initial) commands := by
  cases h : c.stores? with
  | none => rw [latest, List.filterMap_cons_none h, Option.none_or, latest]
  | some text =>
    rw [latest, latest, List.filterMap_cons_some h, List.getLast?_cons, Option.some_or]
    cases (commands.filterMap Command.stores?).getLast? <;> rfl

/-- Nothing is stored only if nothing has ever been. -/
theorem latest_eq_none_iff {initial : Option String} {commands : List Command} :
    latest initial commands = none ↔ initial = none ∧ ∀ c ∈ commands, c.stores? = none := by
  rw [latest, Option.or_eq_none_iff, List.getLast?_eq_none_iff, List.filterMap_eq_nil_iff, and_comm]

namespace Store

variable {World : Type}

/-- What comes of a command.  One that is not carried out leaves the world as it is. -/
def obey (s : Store World) (w : World) (c : Command) : Except Failure Reply × World :=
  match Action.parse c.action c.content with
  | .error e => (.error (.refused e), w)
  | .ok a =>
    match s.perform a w with
    | .error e => (.error (.io e), w)
    | .ok (reply, w) => (.ok reply, w)

/-- What commands leave when they come one after the other. -/
def obeyAll (s : Store World) (commands : List Command) (w : World) : World :=
  commands.foldl (fun w c ↦ (s.obey w c).2) w

section Parsing

variable {s : Store World} {w : World} {c : Command}

theorem obey_of_error {e : RequestError} (h : Action.parse c.action c.content = .error e) :
    s.obey w c = (.error (.refused e), w) := by
  rw [obey, h]

theorem obey_of_view {stored : Option String} (h : Action.parse c.action c.content = .ok .view)
    (hread : s.read w = .ok stored) : s.obey w c = (.ok (.viewed (present stored)), w) := by
  rw [obey, h]
  simp only [perform, hread]
  rfl

theorem obey_of_edit {content : String} {w' : World}
    (h : Action.parse c.action c.content = .ok (.edit content))
    (hwrite : s.write content w = .ok w') : s.obey w c = (.ok .updated, w') := by
  rw [obey, h]
  simp only [perform, hwrite]
  rfl

end Parsing

/-- A store that just remembers the text takes over the content of an edit, and nothing else. -/
theorem memory_obey_snd (stored : Option String) (c : Command) :
    (memory.obey stored c).2 = c.stores?.or stored := by
  rcases c.parse_cases with ⟨e, hparse, hstores⟩ | ⟨hparse, hstores⟩ |
    ⟨content, hparse, hstores⟩
  · rw [obey_of_error hparse, hstores, Option.none_or]
  · rw [obey_of_view hparse rfl, hstores, Option.none_or]
  · rw [obey_of_edit hparse rfl, hstores, Option.some_or]

/-! ## Files -/

/-- A file holds the text that is stored, or is not there if none is; and its path leads to where it
is or could be made. -/
structure Holds (path : String) (d : Disk) (stored : Option String) : Prop where
  resolve_eq : d.resolve path = .ok (d.place path)
  find?_eq : d.find? (d.place path) = stored.map fun text ↦ .file (Text.encode text)

variable {path : String} {d : Disk} {stored : Option String}

theorem Holds.readFile_eq (h : Holds path d stored) : readFile path d = .ok stored := by
  have hfind := h.find?_eq
  cases stored with
  | none =>
    have hread : d.readText path = .error .notFound := by
      simp only [Disk.readText, Disk.read, h.resolve_eq, bind, Except.bind, hfind]
      rfl
    rw [readFile, hread]
  | some text =>
    have hread : d.readText path = .ok text :=
      Disk.readText_eq_ok h.resolve_eq (Disk.contentsAt?_eq_some_iff.mpr hfind)
    rw [readFile, hread]

/-- A file that holds something or is not there can be replaced, and then holds the new text. -/
theorem Holds.exists_write (h : Holds path d stored) (text : String) :
    ∃ d', (file path).write text d = .ok d' ∧ Holds path d' (some text) := by
  have hfind := h.find?_eq
  have hdirectory : d.find? (d.place path) ≠ some .directory := by
    rw [hfind]
    cases stored with
    | none => exact nofun
    | some text => exact nofun
  have hkeeps := Disk.keepsDirectories_put hdirectory (Text.encode text)
  refine ⟨d.put (d.place path) (.file (Text.encode text)), ?_, ?_, ?_⟩
  · change d.modify path (fun _ ↦ Text.encode text) = _
    cases stored with
    | none =>
      simp only [Disk.modify, h.resolve_eq, bind, Except.bind, hfind]
      rfl
    | some before =>
      simp only [Disk.modify, h.resolve_eq, bind, Except.bind, hfind]
      rfl
  · rw [hkeeps.place_eq]
    exact hkeeps.resolve_eq_ok h.resolve_eq
  · rw [hkeeps.place_eq]
    refine Disk.find?_put_self (fun hroot ↦ hdirectory ?_) _ d
    rw [hroot]
    exact d.find?_root

/-- A file that is read as what is stored, or is found to be missing, and that can be written. -/
theorem holds_of_readFile {text : String} {d' : Disk} (hread : readFile path d = .ok stored)
    (hwrite : (file path).write text d = .ok d') : Holds path d stored := by
  have hmodify : d.modify path (fun _ ↦ Text.encode text) = .ok d' := hwrite
  obtain ⟨hresolve, -, -⟩ := Disk.exists_of_modify hmodify
  refine ⟨hresolve, ?_⟩
  unfold readFile at hread
  split at hread
  · next before hbefore =>
    obtain rfl := Except.ok.inj hread
    exact (Disk.find?_of_readText hbefore).2
  · next hmissing =>
    obtain rfl := Except.ok.inj hread
    exact Disk.find?_of_readText_notFound hmissing hresolve
  · cases hread

/-- To keep the text in a file answers every command like just remembering it, and does the same to
the text. -/
theorem obey_of_holds (h : Holds path d stored) (c : Command) :
    ((file path).obey d c).1 = (memory.obey stored c).1 ∧
      Holds path ((file path).obey d c).2 (memory.obey stored c).2 ∧
      (c.stores? = none → ((file path).obey d c).2 = d) := by
  rcases c.parse_cases with ⟨e, hparse, hstores⟩ | ⟨hparse, hstores⟩ |
    ⟨content, hparse, hstores⟩
  · rw [obey_of_error hparse, obey_of_error hparse]
    exact ⟨rfl, h, fun _ ↦ rfl⟩
  · rw [obey_of_view hparse h.readFile_eq, obey_of_view hparse rfl]
    exact ⟨rfl, h, fun _ ↦ rfl⟩
  · obtain ⟨d', hwrite, hholds⟩ := h.exists_write content
    rw [obey_of_edit hparse hwrite, obey_of_edit hparse rfl]
    refine ⟨rfl, hholds, fun hnone ↦ ?_⟩
    rw [hstores] at hnone
    cases hnone

/-- After any commands a file holds the content of the last edit, or else what it has held
before. -/
theorem holds_obeyAll (h : Holds path d stored) (commands : List Command) :
    Holds path ((file path).obeyAll commands d) (latest stored commands) := by
  induction commands generalizing d stored with
  | nil => exact h
  | cons c commands ih =>
    obtain ⟨-, hstep, -⟩ := obey_of_holds h c
    rw [memory_obey_snd] at hstep
    rw [latest_cons]
    exact ih hstep

/-- The welcome text is kept in a file that can be written, and at first holds some text or is not
there.  After any commands a view shows the content of the last of them that has been an edit,
whatever it is, behind the marker of stored texts; without any it shows what has been there at
first, and the default if that has been nothing.  An edit is carried out and is what is stored then.
All other commands are refused and leave the disk as it is, and so do views.  No two texts are shown
the same way, and none like the default. -/
theorem view_shows_latest {initial : Option String} (hinitial : readFile path d = .ok initial)
    (hwrites : ∀ text, ∃ d', (file path).write text d = .ok d') (commands : List Command) :
    let now := (file path).obeyAll commands d
    let stored := latest initial commands
    readFile path now = .ok stored ∧
    (∀ content, (file path).obey now ⟨"view", content⟩ =
      (.ok (.viewed (present stored)), now)) ∧
    (∀ content, ∃ after, (file path).obey now ⟨"edit", some content⟩ =
      (.ok .updated, after) ∧
      readFile path after = .ok (some content)) ∧
    (file path).obey now ⟨"edit", none⟩ = (.error (.refused .missingWelcomeContent), now) ∧
    (∀ action content, action ≠ "view" → action ≠ "edit" →
      (file path).obey now ⟨action, content⟩ =
        (.error (.refused (.unknownWelcomeAction action)), now)) ∧
    (∀ text, present (some text) = "*.*\n" ++ text) ∧
    (present stored = present none ↔ initial = none ∧ ∀ c ∈ commands, c.stores? = none) ∧
    ∀ text text', present (some text) ≠ present none ∧
      (present (some text) = present (some text') → text = text') := by
  intro now stored
  obtain ⟨d', hwrite⟩ := hwrites ""
  have hnow : Holds path now stored := holds_obeyAll (holds_of_readFile hinitial hwrite) commands
  refine ⟨hnow.readFile_eq, ?_, ?_, ?_, ?_, fun _ ↦ rfl, ?_, ?_⟩
  · exact fun content ↦ obey_of_view rfl hnow.readFile_eq
  · intro content
    obtain ⟨after, hwrite, hafter⟩ := hnow.exists_write content
    exact ⟨after, obey_of_edit rfl hwrite, hafter.readFile_eq⟩
  · exact obey_of_error rfl
  · intro action content hview hedit
    exact obey_of_error (by simp [Action.parse, hview, hedit])
  · rw [present_injective.eq_iff, latest_eq_none_iff]
  · exact fun text text' ↦
      ⟨present_some_ne_present_none text, fun h ↦ Option.some.inj (present_injective h)⟩

/-- A file that is not there at first.  It is left empty by the last edit, which is shown as the
text that it is, and what looks like edits after it is refused. -/
theorem view_shows_latest_empty_text :
    let start : Disk := ⟨[(["home"], .directory)], ["home"]⟩
    let commands : List Command :=
      [⟨"view", none⟩, ⟨"edit", some "*welcome to strands!*"⟩, ⟨"view", some "x"⟩,
      ⟨"edit", some ""⟩, ⟨"edit", none⟩, ⟨"Edit", some "y"⟩]
    let now := (file fileName).obeyAll commands start
    readFile fileName start = .ok none ∧
      (∀ text, ∃ d', (file fileName).write text start = .ok d') ∧
      readFile fileName now = .ok (some "") ∧
      (file fileName).obey now ⟨"view", none⟩ = (.ok (.viewed "*.*\n"), now) ∧
      (file fileName).obey now ⟨"edit", none⟩ =
        (.error (.refused .missingWelcomeContent), now) := by
  intro start commands now
  have hinitial : readFile fileName start = .ok none := by rfl
  have hwrites : ∀ text, ∃ d', (file fileName).write text start = .ok d' :=
    fun text ↦ ⟨_, rfl⟩
  have hlatest : latest none commands = some "" := by decide
  obtain ⟨hread, hview, -, hedit, -⟩ := view_shows_latest hinitial hwrites commands
  rw [hlatest] at hread hview
  exact ⟨hinitial, hwrites, hread, hview none, hedit⟩

end Store

end AgentConsole.Welcome
