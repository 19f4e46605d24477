import AgentConsole.Disk.Basic
import AgentConsole.Proofs.Lists

/-!
# What operations leave of a disk

A path is resolved on the disk, step by step, and can fail at every step.  If it does not fail, it
leads to a location that the disk has no say in: `Disk.place` reads it off the path and the working
directory.  So two paths lead to one file or to two whatever has been made or written in the
meantime, and a path that has been resolved once is resolved to the same location as long as no
directory goes away.

Of what a disk holds at a location only files have contents.  To make directories changes no
contents, and to modify a file changes those at one location.

* `Disk.resolve_eq_place` : where a path leads.
* `Disk.grown_makeDirectory` : making directories adds directories, whether or not it succeeds.
* `Disk.exists_of_modify` : what becomes of a disk when a file is modified.
-/

namespace AgentConsole

/-- What succeeds after a first step does so with the value of the first step. -/
theorem exists_of_bind_eq_ok {ε α β : Type} {x : Except ε α} {f : α → Except ε β} {b : β}
    (h : x >>= f = .ok b) : ∃ a, x = .ok a ∧ f a = .ok b := by
  cases x with
  | error e => cases h
  | ok a => exact ⟨a, rfl, h⟩

namespace Disk

variable {d d' : Disk} {l m : Location} {path : String}

/-! ## Putting something at a location -/

theorem find?_root (d : Disk) : d.find? [] = some .directory := rfl

theorem find?_put_self (hl : l ≠ []) (e : Entry) (d : Disk) : (d.put l e).find? l = some e := by
  rw [find?, if_neg hl, put, List.lookup_cons_self]

theorem find?_put_of_ne (h : m ≠ l) (e : Entry) (d : Disk) : (d.put l e).find? m = d.find? m := by
  rw [find?, find?, put, lookup_cons_of_ne h, lookup_filter_of_ne h]

/-! ## Contents -/

/-- The contents of the file at a location, if there is a file. -/
def contentsAt? (d : Disk) (l : Location) : Option Bytes :=
  match d.find? l with
  | some (.file contents) => some contents
  | _ => none

theorem contentsAt?_eq_some_iff {contents : Bytes} :
    d.contentsAt? l = some contents ↔ d.find? l = some (.file contents) := by
  unfold contentsAt?
  split
  · next c hc => simp [hc]
  · next hno => simpa using hno contents

/-- Nothing is at a location or below it. -/
def Vacant (d : Disk) (l : Location) : Prop :=
  ∀ below, d.find? (l ++ below) = none

theorem Vacant.contentsAt?_eq (h : d.Vacant l) (below : Location) :
    d.contentsAt? (l ++ below) = none := by
  rw [contentsAt?, h below]

theorem contentsAt?_put (hl : l ≠ []) (contents : Bytes) (d : Disk) (m : Location) :
    (d.put l (.file contents)).contentsAt? m =
      if m = l then some contents else d.contentsAt? m := by
  by_cases h : m = l
  · rw [if_pos h, h, contentsAt?_eq_some_iff, find?_put_self hl]
  · rw [if_neg h, contentsAt?, contentsAt?, find?_put_of_ne h]

/-! ## Where paths lead -/

/-- Where some components lead from a location, whether or not anything is there. -/
def follow (l : Location) : List String → Location
  | [] => l
  | c :: rest =>
    if Path.stays c then follow l rest
    else if c = ".." then follow l.dropLast rest
    else follow (l ++ [c]) rest

/-- Where a path leads, whether or not anything is there. -/
def place (d : Disk) (path : String) : Location :=
  follow (d.origin path) (Path.components path)

theorem follow_append (l : Location) (cs cs' : List String) :
    follow l (cs ++ cs') = follow (follow l cs) cs' := by
  induction cs generalizing l with
  | nil => rfl
  | cons c cs ih =>
    simp only [List.cons_append, follow]
    split
    · exact ih l
    · split
      · exact ih l.dropLast
      · exact ih (l ++ [c])

theorem walk_eq_follow {cs : List String} (h : d.walk l cs = .ok m) : m = follow l cs := by
  induction cs generalizing l with
  | nil => exact (Except.ok.inj h).symm
  | cons c cs ih =>
    simp only [walk] at h
    simp only [follow]
    split at h
    · cases h
    · cases h
    · split at h
      · next hc => rw [if_pos hc]; exact ih h
      · next hc =>
        rw [if_neg hc]
        split at h
        · next hup => rw [if_pos hup]; exact ih h
        · next hup => rw [if_neg hup]; exact ih h

theorem resolve_eq_place (h : d.resolve path = .ok l) : l = d.place path := by
  unfold resolve at h
  split at h
  · cases h
  · exact walk_eq_follow h

theorem follow_filter (l : Location) (cs : List String) :
    follow l (cs.filter (· ≠ "")) = follow l cs := by
  induction cs generalizing l with
  | nil => rfl
  | cons c cs ih =>
    by_cases hc : c = ""
    · rw [List.filter_cons_of_neg (by simp [hc]), ih, follow, if_pos (by simp [Path.stays, hc])]
    · rw [List.filter_cons_of_pos (by simp [hc])]
      simp only [follow, ih]

theorem isAbsolute_join {directory name : String} (h : '/' ∉ name.toList) :
    Path.isAbsolute (Path.join directory name) = Path.isAbsolute directory := by
  have hname : name.toList.head? ≠ some '/' := fun he ↦ h (List.mem_of_head? he)
  unfold Path.isAbsolute Path.join
  split
  · next hd => simp [hd, hname]
  · next hd =>
    have hne : directory.toList ≠ [] := fun he ↦ hd (String.toList_inj.mp he)
    obtain ⟨c, cs, hcs⟩ := List.exists_cons_of_ne_nil hne
    split
    · simp [hcs]
    · simp [hcs]

/-- A name in a directory leads there from where the directory is. -/
theorem place_join {directory name : String} (h : '/' ∉ name.toList)
    (hstays : Path.stays name = false) (hup : name ≠ "..") (d : Disk) :
    d.place (Path.join directory name) = d.place directory ++ [name] := by
  obtain ⟨front, hcomponents, hfront⟩ := @Path.components_join directory name h
  have horigin : d.origin (Path.join directory name) = d.origin directory := by
    rw [origin, origin, isAbsolute_join h]
  calc d.place (Path.join directory name)
    _ = follow (follow (d.origin directory) front) [name] := by
      rw [place, horigin, hcomponents, follow_append]
    _ = follow (d.origin directory) front ++ [name] := by
      simp [follow, hstays, hup]
    _ = d.place directory ++ [name] := by
      rw [place, ← follow_filter _ front, hfront, follow_filter]

/-! ## Directories that stay -/

/-- Every directory of one disk is a directory of the other, and paths start at the same
location. -/
structure KeepsDirectories (d d' : Disk) : Prop where
  workingDirectory : d'.workingDirectory = d.workingDirectory
  directories : ∀ l, d.find? l = some .directory → d'.find? l = some .directory

namespace KeepsDirectories

theorem refl (d : Disk) : KeepsDirectories d d := ⟨rfl, fun _ h ↦ h⟩

theorem trans {d'' : Disk} (h : KeepsDirectories d d') (h' : KeepsDirectories d' d'') :
    KeepsDirectories d d'' where
  workingDirectory := h'.workingDirectory.trans h.workingDirectory
  directories l hl := h'.directories l (h.directories l hl)

theorem origin_eq (h : KeepsDirectories d d') (path : String) : d'.origin path = d.origin path := by
  rw [origin, origin, h.workingDirectory]

theorem place_eq (h : KeepsDirectories d d') (path : String) : d'.place path = d.place path := by
  rw [place, place, h.origin_eq]

theorem walk_eq_ok (h : KeepsDirectories d d') {cs : List String} (hw : d.walk l cs = .ok m) :
    d'.walk l cs = .ok m := by
  induction cs generalizing l with
  | nil => exact hw
  | cons c cs ih =>
    simp only [walk] at hw ⊢
    split at hw
    · cases hw
    · cases hw
    · next hl =>
      rw [h.directories l hl]
      dsimp only
      split at hw
      · next hc => rw [if_pos hc]; exact ih hw
      · next hc =>
        rw [if_neg hc]
        split at hw
        · next hup => rw [if_pos hup]; exact ih hw
        · next hup => rw [if_neg hup]; exact ih hw

/-- A path that has been resolved is resolved again. -/
theorem resolve_eq_ok (h : KeepsDirectories d d') (hr : d.resolve path = .ok l) :
    d'.resolve path = .ok l := by
  unfold resolve at hr ⊢
  split at hr
  · cases hr
  · rw [h.origin_eq]
    exact h.walk_eq_ok hr

end KeepsDirectories

/-! ## Making directories -/

/-- All that one disk holds is on the other, and what is new there are directories. -/
structure Grown (d d' : Disk) : Prop where
  workingDirectory : d'.workingDirectory = d.workingDirectory
  kept : ∀ l e, d.find? l = some e → d'.find? l = some e
  added : ∀ l, d.find? l = none → d'.find? l = none ∨ d'.find? l = some .directory

namespace Grown

theorem refl (d : Disk) : Grown d d := ⟨rfl, fun _ _ h ↦ h, fun _ h ↦ .inl h⟩

theorem trans {d'' : Disk} (h : Grown d d') (h' : Grown d' d'') : Grown d d'' where
  workingDirectory := h'.workingDirectory.trans h.workingDirectory
  kept l e hl := h'.kept l e (h.kept l e hl)
  added l hl := by
    rcases h.added l hl with hnone | hdir
    · exact h'.added l hnone
    · exact .inr (h'.kept l _ hdir)

theorem keepsDirectories (h : Grown d d') : KeepsDirectories d d' :=
  ⟨h.workingDirectory, fun l ↦ h.kept l .directory⟩

theorem contentsAt?_eq (h : Grown d d') (l : Location) : d'.contentsAt? l = d.contentsAt? l := by
  unfold contentsAt?
  cases hl : d.find? l with
  | some e => rw [h.kept l e hl]
  | none => rcases h.added l hl with hnone | hdir <;> simp [*]

end Grown

theorem grown_put_directory (hl : d.find? l = none) : Grown d (d.put l .directory) := by
  have hroot : l ≠ [] := by
    rintro rfl
    cases hl
  refine ⟨rfl, fun m e hm ↦ ?_, fun m hm ↦ ?_⟩
  · have hne : m ≠ l := by
      rintro rfl
      rw [hl] at hm
      cases hm
    rw [find?_put_of_ne hne, hm]
  · by_cases h : m = l
    · rw [h, find?_put_self hroot]
      exact .inr rfl
    · rw [find?_put_of_ne h]
      exact .inl hm

theorem grown_makeOne {back : List String} (h : d.makeOne l back = .ok d') : Grown d d' := by
  unfold makeOne at h
  split at h
  · cases h
  · next name above _ =>
    obtain ⟨m, -, h⟩ := exists_of_bind_eq_ok h
    split at h
    · cases h
    · cases h
    · split at h
      · cases h
      · next hno =>
        simp only [Bool.or_eq_true, decide_eq_true_eq, not_or, Bool.not_eq_true,
          Option.isSome_eq_false_iff, Option.isNone_iff_eq_none] at hno
        obtain rfl := Except.ok.inj h
        exact grown_put_directory hno.2

theorem grown_ensureOne {back : List String} (h : d.ensureOne l back = .ok d') : Grown d d' := by
  unfold ensureOne at h
  split at h
  · next made hmade =>
    obtain rfl := Except.ok.inj h
    exact grown_makeOne hmade
  · split at h
    · obtain rfl := Except.ok.inj h
      exact .refl d
    · cases h

theorem grown_makeAlong (d : Disk) (l : Location) (back : List String) :
    Grown d (d.makeAlong l back).2 := by
  fun_induction makeAlong d l back with
  | case1 => exact .refl d
  | case2 c rest made hmade => exact grown_ensureOne hmade
  | case3 c rest _ e made hfail ih => rw [hfail] at ih; exact ih
  | case4 c rest _ made habove made' hmade ih =>
    rw [habove] at ih
    exact ih.trans (grown_ensureOne hmade)
  | case5 c rest _ made habove e _ ih => rw [habove] at ih; exact ih
  | case6 c rest e _ _ => exact .refl d

/-- Directories are all that is made, also where it is broken off. -/
theorem grown_makeDirectory (d : Disk) (path : String) : Grown d (d.makeDirectory path).2 := by
  unfold makeDirectory
  split
  · exact .refl d
  · split
    · exact .refl d
    · exact grown_makeAlong d _ _

/-! ## Modifying files -/

/-- A file is modified where its path leads, and there was no directory. -/
theorem exists_of_modify {f : Bytes → Bytes} (h : d.modify path f = .ok d') :
    d.resolve path = .ok (d.place path) ∧ d.find? (d.place path) ≠ some .directory ∧
      d' = d.put (d.place path) (.file (f ((d.contentsAt? (d.place path)).getD []))) := by
  obtain ⟨l, hr, h⟩ := exists_of_bind_eq_ok h
  obtain rfl := resolve_eq_place hr
  refine ⟨hr, ?_⟩
  unfold contentsAt?
  split at h
  · next hl =>
    rw [hl]
    exact ⟨nofun, (Except.ok.inj h).symm⟩
  · cases h
  · next contents hl =>
    rw [hl]
    exact ⟨nofun, (Except.ok.inj h).symm⟩

/-- Where no directory was, a file takes the place of none. -/
theorem keepsDirectories_put (hl : d.find? l ≠ some .directory) (contents : Bytes) :
    KeepsDirectories d (d.put l (.file contents)) := by
  refine ⟨rfl, fun m hm ↦ ?_⟩
  have hne : m ≠ l := by
    rintro rfl
    exact hl hm
  rw [find?_put_of_ne hne, hm]

/-! ## Reading files -/

theorem readText_eq_ok {text : String} (hr : d.resolve path = .ok l)
    (hl : d.contentsAt? l = some (Text.encode text)) : d.readText path = .ok text := by
  rw [contentsAt?_eq_some_iff] at hl
  have hread : d.read path = .ok (Text.encode text) := by
    simp only [read, hr, bind, Except.bind, hl]
    rfl
  simp only [readText, hread, bind, Except.bind, Text.decode?_encode]
  rfl

/-- A text that is read is in a file to which the path leads. -/
theorem find?_of_readText {text : String} (h : d.readText path = .ok text) :
    d.resolve path = .ok (d.place path) ∧
      d.find? (d.place path) = some (.file (Text.encode text)) := by
  obtain ⟨bytes, hread, h⟩ := exists_of_bind_eq_ok h
  obtain ⟨l, hr, hread⟩ := exists_of_bind_eq_ok hread
  obtain rfl := resolve_eq_place hr
  refine ⟨hr, ?_⟩
  split at h
  · cases h
  · next hdecode =>
    obtain rfl := Except.ok.inj h
    split at hread
    · cases hread
    · cases hread
    · next contents hfind =>
      obtain rfl := Except.ok.inj hread
      rw [hfind, Text.eq_encode_of_decode? hdecode]

/-- What cannot be found is not there, or nothing leads to it. -/
theorem find?_of_readText_notFound (h : d.readText path = .error .notFound)
    (hr : d.resolve path = .ok l) : d.find? l = none := by
  unfold readText read at h
  rw [hr] at h
  simp only [bind, Except.bind] at h
  split at h
  · next e he =>
    split at he
    · assumption
    · obtain rfl := Except.error.inj he
      cases h
    · cases he
  · split at h
    · cases h
    · cases h

theorem isFile_eq_false (hl : d.contentsAt? (d.place path) = none) : d.isFile path = false := by
  have hplace {l : Location} (hr : d.resolve path = .ok l) (contents : Bytes) :
      d.find? l ≠ some (.file contents) := by
    rw [resolve_eq_place hr, Ne, ← contentsAt?_eq_some_iff, hl]
    exact nofun
  unfold isFile status
  split
  · next contents hstatus =>
    split at hstatus
    · next hr => exact absurd hstatus (hplace hr contents)
    · cases hstatus
  · rfl

end Disk

end AgentConsole
