import AgentConsole.Proofs.Toml.Merge
import AgentConsole.Settings.Basic

/-!
# Settings one by one

A setting is a key under a header.  What a table has to say about it depends on what is there and on
nothing else in the table, and tables that are laid over each other say about it what the highest
one says that has the key.  So the settings can be taken one by one, whatever else is in the tables,
although the program merges whole tables and reads the settings off the outcome.

* `Setting.value` : what several tables make of a setting.
* `Setting.given?_foldl` : what is left of a setting in merged tables.
* `Settings.ofTable_eq_inForce` : the settings in a table are the settings one by one.
-/

namespace AgentConsole

open Toml (leaf? mergeMembers under IsLeaf IsSection)

/-! ## Kinds of values -/

namespace Settings

/-- A text. -/
def text? : Toml → Option String
  | .string s => some s
  | _ => none

/-- A truth value. -/
def truth? : Toml → Option Bool
  | .bool b => some b
  | _ => none

/-- An integer that is not negative. -/
def natural? : Toml → Option Nat
  | .integer n => n.toNat?
  | _ => none

/-- The values of a kind are texts, integers and truth values. -/
def OfLeaves {α : Type} (kind : Toml → Option α) : Prop :=
  ∀ v, (kind v).isSome → v.IsLeaf

/-- A reader takes every value of a kind for what it is. -/
def Reads {α : Type} (read : Reader α) (kind : Toml → Option α) : Prop :=
  ∀ keys v a, kind v = some a → read keys v = .ok a

theorem ofLeaves_text? : OfLeaves text? := by
  rintro (s | _ | _ | _ | _ | _ | _) h
  · exact trivial
  all_goals cases h

theorem ofLeaves_truth? : OfLeaves truth? := by
  rintro (_ | _ | _ | b | _ | _ | _) h
  case bool => exact trivial
  all_goals cases h

theorem ofLeaves_natural? : OfLeaves natural? := by
  rintro (_ | n | _ | _ | _ | _ | _) h
  case integer => exact trivial
  all_goals cases h

theorem OfLeaves.map {α β : Type} {kind : Toml → Option α} (h : OfLeaves kind)
    (f : α → β) :
    OfLeaves fun v ↦ (kind v).map f :=
  fun v hv ↦ h v (Option.isSome_map ▸ hv)

theorem reads_text : Reads text text? := by
  rintro keys (s | _ | _ | _ | _ | _ | _) a ⟨⟩
  rfl

theorem reads_someText : Reads someText fun v ↦ (text? v).map some := by
  intro keys v a h
  obtain ⟨s, hs, rfl⟩ := Option.map_eq_some_iff.mp h
  rw [someText, reads_text keys v s hs]
  rfl

theorem reads_truth : Reads truth truth? := by
  rintro keys (_ | _ | _ | b | _ | _ | _) a ⟨⟩
  rfl

theorem reads_natural : Reads natural natural? := by
  rintro keys (_ | n | _ | _ | _ | _ | _) a h
  case integer =>
    cases n with
    | ofNat n =>
      obtain rfl := Option.some.inj h
      have hn : 0 ≤ Int.ofNat n := Int.natCast_nonneg n
      rw [natural, if_pos hn]
      rfl
    | negSucc n => cases h
  all_goals cases h

end Settings

/-! ## A setting -/

/-- A setting: where it stands in a table, which values it may have, and which one it has
otherwise. -/
structure Setting (α : Type) where
  header : String
  key : String
  kind : Toml → Option α
  default : α
  ofLeaves : Settings.OfLeaves kind

namespace Setting

variable {α : Type} (s : Setting α)

/-- The value that a table gives to a setting, if it gives one. -/
def given? (table : Toml.Members) : Option α :=
  (leaf? table s.header s.key).bind s.kind

/-- The value that a setting has by some tables, of which the first that gives one counts. -/
def value (tables : List Toml.Members) : α :=
  (tables.findSome? s.given?).getD s.default

/-- A table gives a setting no value but one that it may have, and gives it in the right place. -/
structure Fits (table : Toml.Members) : Prop where
  isSection : IsSection (table.lookup s.header)
  accepts : ∀ v ∈ leaf? table s.header s.key, (s.kind v).isSome = true

instance (table : Toml.Members) : Decidable (s.Fits table) :=
  decidable_of_iff (IsSection _ ∧ ∀ v ∈ leaf? table s.header s.key, (s.kind v).isSome = true)
    ⟨fun ⟨h, h'⟩ ↦ ⟨h, h'⟩, fun ⟨h, h'⟩ ↦ ⟨h, h'⟩⟩

variable {s} {lower upper base table : Toml.Members} {tables : List Toml.Members}

theorem Fits.isLeaf (h : s.Fits table) : ∀ v ∈ leaf? table s.header s.key, v.IsLeaf :=
  fun v hv ↦ s.ofLeaves v (h.accepts v hv)

/-! ### Tables laid over each other -/

theorem leaf?_mergeMembers_of_fits (hupper : (Toml.table upper).Distinct) (hl : s.Fits lower)
    (hu : s.Fits upper) :
    leaf? (mergeMembers lower upper) s.header s.key =
      (leaf? upper s.header s.key).or (leaf? lower s.header s.key) :=
  Toml.leaf?_mergeMembers hupper hl.isSection hu.isSection hu.isLeaf

/-- A table laid over another has its say first. -/
theorem given?_mergeMembers (hupper : (Toml.table upper).Distinct) (hl : s.Fits lower)
    (hu : s.Fits upper) :
    s.given? (mergeMembers lower upper) = (s.given? upper).or (s.given? lower) := by
  rw [given?, leaf?_mergeMembers_of_fits hupper hl hu]
  cases hleaf : leaf? upper s.header s.key with
  | none =>
    have hgiven : s.given? upper = none := by rw [given?, hleaf, Option.bind_none]
    rw [hgiven, Option.none_or, Option.none_or, given?]
  | some v =>
    have hgiven : s.given? upper = s.kind v := by rw [given?, hleaf, Option.bind_some]
    rw [hgiven, Option.some_or, Option.bind_some, Option.or_of_isSome (hu.accepts v hleaf)]

theorem Fits.mergeMembers (hupper : (Toml.table upper).Distinct) (hl : s.Fits lower)
    (hu : s.Fits upper) :
    s.Fits (mergeMembers lower upper) := by
  refine ⟨Toml.isSection_mergeMembers hupper hl.isSection hu.isSection, fun v hv ↦ ?_⟩
  rw [leaf?_mergeMembers_of_fits hupper hl hu, Option.mem_def, Option.or_eq_some_iff] at hv
  rcases hv with hv | ⟨-, hv⟩
  · exact hu.accepts v hv
  · exact hl.accepts v hv

theorem Fits.foldl (hbase : s.Fits base)
    (hdistinct : ∀ table ∈ tables, (Toml.table table).Distinct)
    (h : ∀ table ∈ tables, s.Fits table) :
    s.Fits (tables.foldl Toml.mergeMembers base) := by
  induction tables generalizing base with
  | nil => exact hbase
  | cons table tables ih =>
    obtain ⟨hhead, htail⟩ := List.forall_mem_cons.mp hdistinct
    obtain ⟨hfits, hrest⟩ := List.forall_mem_cons.mp h
    exact ih (hbase.mergeMembers hhead hfits) htail hrest

/-- Of tables laid one over another the highest one that gives a value to a setting counts, and at
last the lowest one. -/
theorem given?_foldl (hbase : s.Fits base)
    (hdistinct : ∀ table ∈ tables, (Toml.table table).Distinct)
    (h : ∀ table ∈ tables, s.Fits table) :
    s.given? (tables.foldl Toml.mergeMembers base) = (tables.reverse.findSome? s.given?).or
      (s.given? base) := by
  induction tables generalizing base with
  | nil => rfl
  | cons table tables ih =>
    obtain ⟨hhead, htail⟩ := List.forall_mem_cons.mp hdistinct
    obtain ⟨hfits, hrest⟩ := List.forall_mem_cons.mp h
    rw [List.foldl_cons, ih (hbase.mergeMembers hhead hfits) htail hrest,
      given?_mergeMembers hhead hbase hfits, List.reverse_cons, List.findSome?_append,
      List.findSome?_singleton, Option.or_assoc]

theorem value_singleton (s : Setting α) (table : Toml.Members) :
    s.value [table] = (s.given? table).getD s.default := by
  rw [value, List.findSome?_singleton]

/-- Tables that are laid over one that says no more than the default make of a setting what they
make of it one by one. -/
theorem value_foldl (hbase : s.Fits base) (hdefault : s.value [base] = s.default)
    (hdistinct : ∀ table ∈ tables, (Toml.table table).Distinct)
    (h : ∀ table ∈ tables, s.Fits table) :
    s.value [tables.foldl Toml.mergeMembers base] = s.value tables.reverse := by
  rw [value_singleton] at hdefault ⊢
  rw [given?_foldl hbase hdistinct h, Option.getD_or, hdefault, value]

/-! ### Reading a setting off a table -/

/-- What is read in the section of a setting is its value. -/
theorem setting_under_eq_value {read : Settings.Reader α} (hread : Settings.Reads read s.kind)
    (h : s.Fits table) (keys : List String) (place : Nat) :
    (Settings.Section.named (under table s.header)).setting keys s.key place s.default read =
      .ok (s.value [table]) := by
  rw [value_singleton, given?]
  cases hleaf : leaf? table s.header s.key with
  | none =>
    rw [leaf?] at hleaf
    simp only [Settings.Section.setting, hleaf]
    rfl
  | some v =>
    obtain ⟨a, ha⟩ := Option.isSome_iff_exists.mp (h.accepts v hleaf)
    rw [leaf?] at hleaf
    simp only [Settings.Section.setting, hleaf, Option.bind_some, ha, hread _ v a ha,
      Option.getD_some]

/-! ### All settings -/

/-- The time between two frames, in milliseconds. -/
def tick : Setting Nat :=
  ⟨"presenter", "tick_interval_ms", Settings.natural?, DisplayOptions.defaultTick,
    Settings.ofLeaves_natural?⟩

/-- Whether the end of an answer is announced. -/
def notifies : Setting Bool :=
  ⟨"presenter", "notify_on_completion", Settings.truth?, false, Settings.ofLeaves_truth?⟩

/-- Whether there is color. -/
def color : Setting Bool :=
  ⟨"presenter", "color", Settings.truth?, true, Settings.ofLeaves_truth?⟩

/-- The knowledge base that documents go to. -/
def knowledgeBase : Setting (Option String) :=
  ⟨"knowledge_base", "id", fun v ↦ (Settings.text? v).map some, none,
    Settings.ofLeaves_text?.map some⟩

/-- The directory of the archive. -/
def directory : Setting String :=
  ⟨"knowledge_base", "directory", Settings.text?, KnowledgeSettings.defaultDirectory,
    Settings.ofLeaves_text?⟩

/-- The system prompt. -/
def systemPrompt : Setting (Option String) :=
  ⟨"prompt", "system_prompt", fun v ↦ (Settings.text? v).map some, none,
    Settings.ofLeaves_text?.map some⟩

end Setting

namespace Settings

open Setting

/-- The settings by some tables, one by one; for each of them the first table that gives it a value
counts. -/
def inForce (tables : List Toml.Members) : Settings where
  display :=
    { tick := tick.value tables
      notifies := notifies.value tables
      color := color.value tables }
  knowledge :=
    { id := knowledgeBase.value tables
      directory := directory.value tables }
  prompt := systemPrompt.value tables

/-- A table in which all that is meant for settings is in tables under their headers and of the
right kind. -/
structure WellTyped (table : Toml.Members) : Prop where
  tick : tick.Fits table
  notifies : notifies.Fits table
  color : color.Fits table
  knowledgeBase : knowledgeBase.Fits table
  directory : directory.Fits table
  systemPrompt : systemPrompt.Fits table

theorem wellTyped_iff {table : Toml.Members} :
    WellTyped table ↔
      tick.Fits table ∧ notifies.Fits table ∧ color.Fits table ∧ knowledgeBase.Fits table ∧
      directory.Fits table ∧ systemPrompt.Fits table :=
  ⟨fun ⟨a, b, c, d, e, f⟩ ↦ ⟨a, b, c, d, e, f⟩,
    fun ⟨a, b, c, d, e, f⟩ ↦ ⟨a, b, c, d, e, f⟩⟩

instance (table : Toml.Members) : Decidable (WellTyped table) :=
  decidable_of_iff _ wellTyped_iff.symm

variable {table : Toml.Members} {tables : List Toml.Members}

/-! ## Sections -/

/-- A section that is missing is read like one without keys. -/
theorem setting_of_under {α : Type} {read : Reader α} {header : String}
    {default a : α} (place : Nat) (h : IsSection (table.lookup header))
    (hread : read [header] (.table (under table header)) = .ok a)
    (hempty : read [header] (.table []) = .ok default) :
    (Section.named table).setting [] header place default read = .ok a := by
  cases hv : table.lookup header with
  | none =>
    rw [Toml.under_of_lookup_eq_none hv, hempty] at hread
    simp only [Section.setting, hv, hread]
  | some v =>
    obtain ⟨members, rfl⟩ := h.exists_eq hv
    rw [Toml.under_of_lookup_eq_table hv] at hread
    simp only [Section.setting, hv]
    exact hread

theorem asSection_table (keys : List String) (members : Toml.Members) :
    asSection keys (.table members) = .ok (.named members) :=
  rfl

theorem ofToml_display (h : WellTyped table) (keys : List String) :
    DisplaySettings.ofToml keys (.table (under table "presenter")) =
      .ok (inForce [table]).display := by
  have htick :
      (Section.named (under table "presenter")).setting keys "tick_interval_ms" 0
        DisplayOptions.defaultTick
      natural = .ok (tick.value [table]) := setting_under_eq_value reads_natural h.tick keys 0
  have hnotifies :
      (Section.named (under table "presenter")).setting keys "notify_on_completion" 1 false
      truth = .ok (notifies.value [table]) := setting_under_eq_value reads_truth h.notifies keys 1
  have hcolor : (Section.named (under table "presenter")).setting keys "color" 2 true
      truth = .ok (color.value [table]) := setting_under_eq_value reads_truth h.color keys 2
  simp only [DisplaySettings.ofToml, asSection_table, bind, Except.bind, htick, hnotifies, hcolor]
  rfl

theorem ofToml_knowledge (h : WellTyped table) (keys : List String) :
    KnowledgeSettings.ofToml keys (.table (under table "knowledge_base")) =
      .ok (inForce [table]).knowledge := by
  have hid : (Section.named (under table "knowledge_base")).setting keys "id" 0 none
      someText = .ok (knowledgeBase.value [table]) :=
    setting_under_eq_value reads_someText h.knowledgeBase keys 0
  have hdirectory : (Section.named (under table "knowledge_base")).setting keys "directory" 1
      KnowledgeSettings.defaultDirectory text = .ok (directory.value [table]) :=
    setting_under_eq_value reads_text h.directory keys 1
  simp only [KnowledgeSettings.ofToml, asSection_table, bind, Except.bind, hid, hdirectory]
  rfl

theorem promptOf_under (h : WellTyped table) (keys : List String) :
    promptOf keys (.table (under table "prompt")) = .ok (inForce [table]).prompt :=
  setting_under_eq_value reads_someText h.systemPrompt keys 0

/-- The settings in a table are what it says about each of them. -/
theorem ofTable_eq_inForce (h : WellTyped table) : ofTable table = .ok (inForce [table]) := by
  have hknowledge :
      (Section.named table).setting [] "knowledge_base" 0 {} KnowledgeSettings.ofToml =
      .ok (inForce [table]).knowledge :=
    setting_of_under 0 h.knowledgeBase.isSection (ofToml_knowledge h _) rfl
  have hdisplay : (Section.named table).setting [] "presenter" 1 {} DisplaySettings.ofToml =
      .ok (inForce [table]).display := setting_of_under 1 h.tick.isSection (ofToml_display h _) rfl
  have hprompt :
      (Section.named table).setting [] "prompt" 2 none promptOf = .ok (inForce [table]).prompt :=
    setting_of_under 2 h.systemPrompt.isSection (promptOf_under h _) rfl
  simp only [ofTable, bind, Except.bind, hknowledge, hdisplay, hprompt]
  rfl

/-! ## Tables over defaults -/

theorem wellTyped_toTable (x : Settings) : WellTyped (toTable x) := by
  obtain ⟨⟨tick, notifies, color⟩, ⟨id, directory⟩, prompt⟩ := x
  cases id <;> cases prompt <;> constructor <;> constructor <;> rintro _ ⟨⟩ <;> rfl

theorem inForce_toTable (x : Settings) : inForce [toTable x] = x := by
  obtain ⟨⟨tick, notifies, color⟩, ⟨id, directory⟩, prompt⟩ := x
  cases id <;> cases prompt <;> rfl

/-- A table with given settings has these settings and no others. -/
theorem ofTable_toTable (x : Settings) : ofTable (toTable x) = .ok x := by
  rw [ofTable_eq_inForce (wellTyped_toTable x), inForce_toTable]

/-- Tables over the defaults come to the settings one by one, the highest table first. -/
theorem ofTable_foldl (hdistinct : ∀ table ∈ tables, (Toml.table table).Distinct)
    (h : ∀ table ∈ tables, WellTyped table) :
    ofTable (tables.foldl Toml.mergeMembers (toTable {})) = .ok (inForce tables.reverse) := by
  have hbase := wellTyped_toTable {}
  have hmerged : WellTyped (tables.foldl Toml.mergeMembers (toTable {})) :=
    { tick := hbase.tick.foldl hdistinct fun t ht ↦ (h t ht).tick
      notifies := hbase.notifies.foldl hdistinct fun t ht ↦ (h t ht).notifies
      color := hbase.color.foldl hdistinct fun t ht ↦ (h t ht).color
      knowledgeBase := hbase.knowledgeBase.foldl hdistinct fun t ht ↦ (h t ht).knowledgeBase
      directory := hbase.directory.foldl hdistinct fun t ht ↦ (h t ht).directory
      systemPrompt := hbase.systemPrompt.foldl hdistinct fun t ht ↦ (h t ht).systemPrompt }
  rw [ofTable_eq_inForce hmerged, inForce, inForce,
    value_foldl hbase.tick rfl hdistinct fun t ht ↦ (h t ht).tick,
    value_foldl hbase.notifies rfl hdistinct fun t ht ↦ (h t ht).notifies,
    value_foldl hbase.color rfl hdistinct fun t ht ↦ (h t ht).color,
    value_foldl hbase.knowledgeBase rfl hdistinct fun t ht ↦ (h t ht).knowledgeBase,
    value_foldl hbase.directory rfl hdistinct fun t ht ↦ (h t ht).directory,
    value_foldl hbase.systemPrompt rfl hdistinct fun t ht ↦ (h t ht).systemPrompt]

/-! ## What else is in the tables -/

/-- The headers and keys of all settings. -/
def known : List (String × String) :=
  [(tick.header, tick.key), (notifies.header, notifies.key), (color.header, color.key),
    (knowledgeBase.header, knowledgeBase.key), (directory.header, directory.key),
    (systemPrompt.header, systemPrompt.key)]

/-- Two tables have the same to say about everything that can be set, whatever else is in them. -/
def Alike (table table' : Toml.Members) : Prop :=
  ∀ p ∈ known, leaf? table p.1 p.2 = leaf? table' p.1 p.2

theorem value_eq_of_alike {α : Type} {s : Setting α} (hs : (s.header, s.key) ∈ known)
    {tables tables' : List Toml.Members} (h : List.Forall₂ Alike tables tables') :
    s.value tables = s.value tables' := by
  have hfirst : tables.findSome? s.given? = tables'.findSome? s.given? := by
    induction h with
    | nil => rfl
    | cons halike _ ih =>
      rw [List.findSome?_cons, List.findSome?_cons, ih, given?, given?, halike _ hs]
  rw [value, value, hfirst]

/-- Nothing else counts. -/
theorem inForce_eq_of_alike {tables tables' : List Toml.Members}
    (h : List.Forall₂ Alike tables tables') :
    inForce tables = inForce tables' := by
  have hvalue {α : Type} {s : Setting α} (hs : (s.header, s.key) ∈ known) :
      s.value tables = s.value tables' :=
    value_eq_of_alike hs h
  rw [inForce, inForce, @hvalue _ tick (by decide), @hvalue _ notifies (by decide),
    @hvalue _ color (by decide), @hvalue _ knowledgeBase (by decide),
    @hvalue _ directory (by decide), @hvalue _ systemPrompt (by decide)]

end Settings

end AgentConsole
