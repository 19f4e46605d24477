import AgentConsole.Proofs.Knowledge.Archive

/-!
# Which knowledge bases share a file

Knowledge bases are told apart by their names, and their files by names in which every slash has
become an underscore.  So two knowledge bases whose names differ in such characters only have one
file between them, and the lines in it do not say of which of the two they are.  All others have
files of their own.

* `Archive.shares_file_iff_alike` : when knowledge bases share a file, and what is in it.
-/

namespace AgentConsole

/-- The characters that are written as underscores in names of files. -/
def Archive.blurred : List Char := ['/', '\\', '_']

namespace KnowledgeBaseId

/-- The names of two knowledge bases differ in blurred characters only. -/
def Alike (a b : KnowledgeBaseId) : Prop :=
  List.Forall₂ (fun c c' ↦ c = c' ∨ c ∈ Archive.blurred ∧ c' ∈ Archive.blurred)
    a.name.toList b.name.toList

instance (a b : KnowledgeBaseId) : Decidable (a.Alike b) :=
  inferInstanceAs (Decidable (List.Forall₂ _ _ _))

/-- The name of a knowledge base holds no slash of either kind. -/
def IsPlain (a : KnowledgeBaseId) : Prop :=
  '/' ∉ a.name.toList ∧ '\\' ∉ a.name.toList

instance (a : KnowledgeBaseId) : Decidable a.IsPlain :=
  inferInstanceAs (Decidable (_ ∧ _))

end KnowledgeBaseId

namespace Archive

variable {a b : KnowledgeBaseId}

theorem nameChar_of_mem_blurred {c : Char} (h : c ∈ blurred) : nameChar c = '_' := by
  simp only [blurred, List.mem_cons, List.not_mem_nil, or_false] at h
  rcases h with rfl | rfl | rfl
  · decide
  · decide
  · decide

theorem nameChar_of_notMem_blurred {c : Char} (h : c ∉ blurred) : nameChar c = c := by
  simp only [blurred, List.mem_cons, List.not_mem_nil, or_false, not_or] at h
  rw [nameChar, if_neg (not_or.mpr ⟨h.1, h.2.1⟩)]

theorem nameChar_eq_iff {c c' : Char} :
    nameChar c = nameChar c' ↔ c = c' ∨ c ∈ blurred ∧ c' ∈ blurred := by
  have hunderscore : '_' ∈ blurred := by decide
  by_cases hc : c ∈ blurred
  · by_cases hc' : c' ∈ blurred
    · simp [nameChar_of_mem_blurred, hc, hc']
    · have hne : '_' ≠ c' := fun he ↦ hc' (he ▸ hunderscore)
      have hne' : c ≠ c' := fun he ↦ hc' (he ▸ hc)
      simp [nameChar_of_mem_blurred hc, nameChar_of_notMem_blurred hc', hc', hne, hne']
  · by_cases hc' : c' ∈ blurred
    · have hne : c ≠ '_' := fun he ↦ hc (he ▸ hunderscore)
      have hne' : c ≠ c' := fun he ↦ hc (he ▸ hc')
      simp [nameChar_of_notMem_blurred hc, nameChar_of_mem_blurred hc', hc, hne, hne']
    · simp [nameChar_of_notMem_blurred, hc, hc']

theorem fileName_eq_iff : fileName a = fileName b ↔ a.Alike b := by
  have hmap :
      fileName a = fileName b ↔ a.name.toList.map nameChar = b.name.toList.map nameChar := by
    rw [← String.toList_inj, toList_fileName, toList_fileName, List.append_cancel_right_eq]
  rw [hmap, KnowledgeBaseId.Alike, ← List.forall₂_eq_eq_eq, List.forall₂_map_left_iff,
    List.forall₂_map_right_iff]
  simp only [nameChar_eq_iff]

/-- Without slashes the underscores are left, which are all alike. -/
theorem eq_of_alike (h : a.Alike b) (ha : a.IsPlain) (hb : b.IsPlain) : a = b := by
  have hplain {id : KnowledgeBaseId} (hid : id.IsPlain) {c : Char} (hc : c ∈ id.name.toList)
      (hblurred : c ∈ blurred) : c = '_' := by
    simp only [blurred, List.mem_cons, List.not_mem_nil, or_false] at hblurred
    rcases hblurred with rfl | rfl | rfl
    · exact absurd hc hid.1
    · exact absurd hc hid.2
    · rfl
  have hname : a.name.toList = b.name.toList := by
    obtain ⟨hlength, hzip⟩ := List.forall₂_iff_zip.mp h
    rw [← List.forall₂_eq_eq_eq, List.forall₂_iff_zip]
    refine ⟨hlength, fun {c c'} hmem ↦ ?_⟩
    rcases hzip hmem with heq | ⟨hc, hc'⟩
    · exact heq
    · obtain ⟨hca, hcb⟩ := List.of_mem_zip hmem
      rw [hplain ha hca hc, hplain hb hcb hc']
  cases a
  cases b
  rw [KnowledgeBaseId.mk.injEq]
  exact String.toList_inj.mp hname

/-- Two knowledge bases have one file exactly if their names differ in slashes and underscores only,
and so never if there is no slash in either name.  In an archive whose directory has not been there
the file of a knowledge base holds the documents of all those that are like it, in the order in
which they have come. -/
theorem shares_file_iff_alike (directory : String) (a b : KnowledgeBaseId) :
    (pathFor directory a = pathFor directory b ↔ a.Alike b) ∧
    (a ≠ b → a.IsPlain → b.IsPlain → pathFor directory a ≠ pathFor directory b) ∧
    ∀ deposits start final, start.Vacant (start.place directory) →
      ingestAll directory deposits start = .ok final →
      let held := deposits.filter fun x ↦ x.document.knowledgeBase.Alike a
      held ≠ [] → ∃ text, final.readText (pathFor directory a) = .ok text ∧
        Lists text held := by
  have hiff (a b : KnowledgeBaseId) : pathFor directory a = pathFor directory b ↔ a.Alike b := by
    rw [pathFor_eq_iff, fileName_eq_iff]
  refine ⟨hiff a b, ?_, ?_⟩
  · intro hne ha hb hpath
    exact hne (eq_of_alike ((hiff a b).mp hpath) ha hb)
  · intro deposits start final hvacant hrun held hne
    have hheld : heldAt directory (pathFor directory a) deposits = held :=
      List.filter_congr fun x _ ↦ decide_eq_decide.mpr (hiff _ a)
    rw [← hheld] at hne ⊢
    exact readText_pathFor hvacant hrun hne

/-- The documents of two knowledge bases in the file of both, and that of a third one apart from
them. -/
theorem shares_file_of_slash_and_underscore :
    let start : Disk := ⟨[(["home"], .directory)], ["home"]⟩
    let first : Deposit := ⟨"t1", ⟨"m1", ⟨"a/b"⟩, "One", "c"⟩⟩
    let second : Deposit := ⟨"t2", ⟨"m2", ⟨"plans"⟩, "Two", "c"⟩⟩
    let third : Deposit := ⟨"t3", ⟨"m3", ⟨"a_b"⟩, "Three", "c"⟩⟩
    ∃ final text, start.Vacant (start.place "kb") ∧
      ingestAll "kb" [first, second, third] start = .ok final ∧
      final.readText "kb/a_b.jsonl" = .ok text ∧ Lists text [first, third] ∧
      pathFor "kb" ⟨"a_b"⟩ ≠ pathFor "kb" ⟨"plans"⟩ := by
  intro start first second third
  have hvacant : start.Vacant (start.place "kb") := fun below ↦ rfl
  have hheld :
      ([first, second, third].filter fun x ↦ x.document.knowledgeBase.Alike ⟨"a_b"⟩) =
      [first, third] := by decide
  have hok : (ingestAll "kb" [first, second, third] start).isOk = true := by decide +kernel
  obtain ⟨-, hplain, hfiles⟩ := shares_file_iff_alike "kb" ⟨"a_b"⟩ ⟨"plans"⟩
  cases hrun : ingestAll "kb" [first, second, third] start with
  | error e => rw [hrun] at hok; cases hok
  | ok final =>
    obtain ⟨text, hread, hlists⟩ := hfiles _ _ _ hvacant hrun (hheld ▸ nofun)
    exact ⟨final, text, hvacant, rfl, hread, hheld ▸ hlists,
      hplain (by decide) (by decide) (by decide)⟩

/-- Two names that may be given, and that are not the same, with one file. -/
theorem pathFor_slash_eq_underscore :
    KnowledgeBaseId.parse "a/b" = .ok ⟨"a/b"⟩ ∧
      KnowledgeBaseId.parse "a_b" = .ok ⟨"a_b"⟩ ∧
      (⟨"a/b"⟩ : KnowledgeBaseId) ≠ ⟨"a_b"⟩ ∧
        pathFor "kb" ⟨"a/b"⟩ = pathFor "kb" ⟨"a_b"⟩ := by
  exact ⟨by rfl, by rfl, by decide, by decide⟩

end Archive

end AgentConsole
