import AgentConsole.Proofs.Disk.Contents
import AgentConsole.Proofs.Settings.Fields
import AgentConsole.Proofs.Settings.Wrapped
import AgentConsole.Proofs.Toml.Document
import AgentConsole.Settings.Files

/-!
# Settings in layers

Each layer of settings comes from a file, or from none.  A document that can be read has no key
twice, and it still has none when what is wrapped in it is unwrapped, so the layers can be laid one
over another.  Then every setting has the value of the highest layer that gives it one, whatever
that layer leaves out or holds besides.

What is wrapped is the exception to the last point.  A key that is no setting's replaces the table
that it is in by what it stands for, so a document may take settings back, or make some, by a key
that nobody knows.

* `Settings.load_layered` : the settings in layers of files.
-/

namespace AgentConsole.Settings

open Toml (mergeMembers)

/-! ## Layers -/

/-- What a document says without wrapping. -/
def tableOf? (text : String) : Option Toml.Members :=
  (Toml.parse? text).bind unwrapMembers?

/-- The table of a layer.  It is empty if no file is named or none is there. -/
inductive Layer (d : Disk) : Option String → Toml.Members → Prop where
  | unnamed : Layer d none []
  | missing {path : String} (h : d.contains path = false) : Layer d (some path) []
  | document {path text : String} {table : Toml.Members} (hread : d.readText path = .ok text)
    (htable : tableOf? text = some table) : Layer d (some path) table

/-- Layers of files, of which the highest has to be there if it is named. -/
structure Layered (d : Disk) (f : SettingsFiles) (user project explicit : Toml.Members) : Prop where
  ofUser : Layer d f.user user
  ofProject : Layer d f.project project
  ofExplicit : Layer d f.explicit explicit
  present : ∀ path ∈ f.explicit, d.contains path = true
  wellTyped : ∀ table ∈ [user, project, explicit], WellTyped table

variable {d : Disk} {path text : String} {name : Option String} {members table : Toml.Members}

theorem Layer.distinct (h : Layer d name table) : (Toml.table table).Distinct := by
  cases h with
  | unnamed => exact .table List.nodup_nil nofun
  | missing => exact .table List.nodup_nil nofun
  | document _ htable =>
    obtain ⟨members, hparse, hunwrap⟩ := Option.bind_eq_some_iff.mp htable
    exact distinct_unwrapMembers (Toml.distinct_of_parse? hparse) hunwrap

/-! ## Reading layers -/

theorem status_of_readText (h : d.readText path = .ok text) :
    d.status path = some (.file (Text.encode text)) := by
  obtain ⟨hresolve, hfind⟩ := Disk.find?_of_readText h
  rw [Disk.status, hresolve]
  exact hfind

theorem contains_of_readText (h : d.readText path = .ok text) : d.contains path = true := by
  rw [Disk.contains, status_of_readText h]
  rfl

theorem isFile_of_readText (h : d.readText path = .ok text) : d.isFile path = true := by
  rw [Disk.isFile, status_of_readText h]

theorem readFile_of_document (hread : d.readText path = .ok text)
    (htable : tableOf? text = some table) :
    readFile d path = .ok table := by
  unfold tableOf? at htable
  simp only [readFile, hread, htable]

theorem upward_eq_cons (l : Location) : ∃ above, upward l = l :: above := by
  refine ⟨((List.range l.length).map l.take).reverse, ?_⟩
  rw [upward, List.range_succ, List.map_append, List.reverse_append, List.map_singleton,
    List.take_length]
  rfl

/-- A file in the working directory is found there. -/
theorem readLayer_of_document (hread : d.readText path = .ok text)
    (htable : tableOf? text = some table) :
    readLayer d path = .ok table := by
  obtain ⟨above, habove⟩ : ∃ above,
      (if Path.isAbsolute path then [d.workingDirectory] else upward d.workingDirectory) =
        d.workingDirectory :: above := by
    split
    · exact ⟨[], rfl⟩
    · exact upward_eq_cons d.workingDirectory
  rw [readLayer, if_pos (contains_of_readText hread)]
  simp only [habove, List.map_cons, List.find?_cons, isFile_of_readText hread]
  exact readFile_of_document hread htable

theorem readLayer_of_missing (h : d.contains path = false) : readLayer d path = .ok [] := by
  rw [readLayer, h]
  rfl

/-- A layer without a file is as good as an empty table. -/
theorem Layer.exists_mapM {read : String → Except SettingsError Toml.Members}
    (h : Layer d name table)
    (hdocument : ∀ {path text}, d.readText path = .ok text → tableOf? text = some table →
      read path = .ok table)
    (hmissing : ∀ path ∈ name, d.contains path = false → read path = .ok []) :
    ∃ tables, name.toList.mapM read = .ok tables ∧
      ∀ base, tables.foldl mergeMembers base = mergeMembers base table := by
  cases h with
  | unnamed => exact ⟨[], rfl, fun _ ↦ rfl⟩
  | missing h =>
    refine ⟨[[]], ?_, fun _ ↦ rfl⟩
    rw [Option.toList_some, List.mapM_cons, hmissing _ rfl h]
    rfl
  | document hread htable =>
    refine ⟨[table], ?_, fun _ ↦ rfl⟩
    rw [Option.toList_some, List.mapM_cons, hdocument hread htable]
    rfl

/-- A document in which no table below the top uses a key of wrapping is taken as it stands. -/
theorem layer_iff_of_unreserved (hread : d.readText path = .ok text)
    (hparse : Toml.parse? text = some members) (hplain : ∀ m ∈ members, Unreserved m.2) :
    Layer d (some path) table ↔ table = members := by
  have htable : tableOf? text = some members := by
    rw [tableOf?, hparse, Option.bind_some, unwrapMembers?_eq_self hplain]
  constructor
  · intro h
    cases h with
    | missing h => exact absurd (contains_of_readText hread) (h ▸ Bool.false_ne_true)
    | document hread' htable' =>
      obtain rfl := Except.ok.inj (hread'.symm.trans hread)
      exact Option.some.inj (htable'.symm.trans htable)
  · rintro rfl
    exact .document hread htable

/-! ## Layers over layers -/

variable {f : SettingsFiles} {user project explicit : Toml.Members}

theorem load_eq_ofTable (h : Layered d f user project explicit) :
    load d f = ofTable ([user, project, explicit].foldl mergeMembers (toTable {})) := by
  obtain ⟨tables, htables, huser⟩ :=
    h.ofUser.exists_mapM readLayer_of_document fun _ _ hmissing ↦ readLayer_of_missing hmissing
  obtain ⟨tables', htables', hproject⟩ :=
    h.ofProject.exists_mapM readLayer_of_document fun _ _ hmissing ↦ readLayer_of_missing hmissing
  have hpresent :
      ∀ path ∈ f.explicit, d.contains path = false → readFile d path = .ok [] := by
    intro path hpath hmissing
    exact absurd (h.present path hpath) (hmissing ▸ Bool.false_ne_true)
  obtain ⟨tables'', htables'', hexplicit⟩ :=
    h.ofExplicit.exists_mapM readFile_of_document hpresent
  have hlayers : layers d f = .ok (tables ++ tables' ++ tables'') := by
    rw [layers, List.mapM_append, htables, htables', htables'']
    rfl
  rw [load, hlayers]
  show ofTable ((tables ++ tables' ++ tables'').foldl mergeMembers (toTable {})) = _
  rw [List.foldl_append, List.foldl_append, huser, hproject, hexplicit]
  rfl

theorem load_eq_inForce (h : Layered d f user project explicit) :
    load d f = .ok (inForce [explicit, project, user]) := by
  have hdistinct : ∀ table ∈ [user, project, explicit], (Toml.table table).Distinct :=
    List.forall_mem_cons.mpr ⟨h.ofUser.distinct, List.forall_mem_cons.mpr ⟨h.ofProject.distinct,
      List.forall_mem_singleton.mpr h.ofExplicit.distinct⟩⟩
  rw [load_eq_ofTable h, ofTable_foldl hdistinct h.wellTyped]
  rfl

/-- Settings are loaded from layers of files, and each of them has the value that the highest layer
with a value for it gives it, or else its default.  Whatever else is in the layers does not count.
The table of a layer is what its document says, as long as nothing in the document is wrapped. -/
theorem load_layered (h : Layered d f user project explicit) :
    load d f = .ok (inForce [explicit, project, user]) ∧
      (∀ d' f' user' project' explicit', Layered d' f' user' project' explicit' →
        Alike user user' →
        Alike project project' → Alike explicit explicit' → load d' f' = load d f) ∧
      ∀ path text members, d.readText path = .ok text → Toml.parse? text = some members →
        (∀ m ∈ members, Unreserved m.2) → ∀ table, Layer d (some path) table ↔
          table = members := by
  refine ⟨load_eq_inForce h, ?_, fun _ _ _ hread hparse hplain _ ↦
    layer_iff_of_unreserved hread hparse hplain⟩
  intro d' f' user' project' explicit' h' huser hproject hexplicit
  have halike : List.Forall₂ Alike [explicit, project, user] [explicit', project', user'] :=
    .cons hexplicit (.cons hproject (.cons huser .nil))
  rw [load_eq_inForce h, load_eq_inForce h', inForce_eq_of_alike halike]

/-- A disk with texts in files in the working directory, which is the root. -/
def diskOf (files : List (String × String)) : Disk :=
  ⟨files.map fun (name, text) ↦ ([name], .file (Text.encode text)), []⟩

/-- A user's file with settings under two of three headers and another header. -/
def userText : String :=
  "[presenter]\ntick_interval_ms=120\ncolor=false\n[prompt]\nsystem_prompt='u'\n[other]\nx=[1]"

/-- A project's file with settings and another key. -/
def projectText : String :=
  "[presenter]\nnotify_on_completion=true\ncolour='red'\n[knowledge_base]\nid='p'"

/-- A file with one setting and empty tables. -/
def explicitText : String :=
  "[presenter]\ntick_interval_ms=9\n[prompt]\n[knowledge_base]"

/-- Three files that set some of the settings each. -/
theorem load_layered_partial :
    let d := diskOf [("user.toml", userText), ("strands.toml", projectText),
      ("explicit.toml", explicitText)]
    let f : SettingsFiles := ⟨some "user.toml", some "strands.toml", some "explicit.toml"⟩
    ∃ user project explicit, Layered d f user project explicit ∧
      load d f = .ok
        { display := { tick := 9, notifies := true, color := false }
          knowledge := { id := some "p" }
          prompt := some "u" } := by
  intro d f
  have htables :
      ∀ user ∈ tableOf? userText, ∀ project ∈ tableOf? projectText,
      ∀ explicit ∈ tableOf? explicitText,
      (∀ table ∈ [user, project, explicit], WellTyped table) ∧
        inForce [explicit, project, user] =
          { display := { tick := 9, notifies := true, color := false }
            knowledge := { id := some "p" }
            prompt := some "u" } := by
    decide +kernel
  have hsome : (tableOf? userText).isSome ∧ (tableOf? projectText).isSome ∧
      (tableOf? explicitText).isSome := by
    decide +kernel
  obtain ⟨user, huser⟩ := Option.isSome_iff_exists.mp hsome.1
  obtain ⟨project, hproject⟩ := Option.isSome_iff_exists.mp hsome.2.1
  obtain ⟨explicit, hexplicit⟩ := Option.isSome_iff_exists.mp hsome.2.2
  obtain ⟨hwell, hvalues⟩ := htables user huser project hproject explicit hexplicit
  have hlayered : Layered d f user project explicit :=
    { ofUser := .document (by rfl) huser
      ofProject := .document (by rfl) hproject
      ofExplicit := .document (by rfl) hexplicit
      present := by rintro _ ⟨⟩; rfl
      wellTyped := hwell }
  refine ⟨user, project, explicit, hlayered, ?_⟩
  rw [← hvalues]
  exact (load_layered hlayered).1

/-- A file in which a key that is no setting's stands for the whole table that it is in. -/
def wrappedText : String :=
  "[presenter]\ntick_interval_ms=9\n[presenter.___figment_value_value]\ncolor=false"

/-- The interval that the document sets is not in force, and there is no color although no setting
in the document says so. -/
theorem load_wrapped :
    ∃ table, Toml.parse? wrappedText = some table ∧ WellTyped table ∧
      Setting.tick.given? table = some 9 ∧
      Setting.color.given? table = none ∧
      load (diskOf [("strands.toml", wrappedText)]) ⟨none, some "strands.toml", none⟩ =
        .ok { display := { tick := 80, color := false } } := by
  have htable : ∀ table ∈ Toml.parse? wrappedText,
      WellTyped table ∧ Setting.tick.given? table = some 9 ∧
        Setting.color.given? table = none := by
    decide +kernel
  have hsome : (Toml.parse? wrappedText).isSome := by decide +kernel
  obtain ⟨table, hparse⟩ := Option.isSome_iff_exists.mp hsome
  obtain ⟨hwell, htick, hcolor⟩ := htable table hparse
  exact ⟨table, hparse, hwell, htick, hcolor, by decide +kernel⟩

end AgentConsole.Settings
