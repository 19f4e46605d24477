import AgentConsole.Proofs.Toml.Keys

/-!
# Documents have distinct keys

The readers of TOML are taken one by one, from scalars, in which there are no keys at all, to
documents.  A reader that is made of another one is as good as that one (`Toml.Yields`), and where
arrays and inline tables contain each other the depth to which they may is what the induction goes
by.  Pairs of keys and values are put together in two places, in an inline table and in the document
itself, and by the same change in both.

* `Toml.yields_valueWithin` : values that are read.
* `Toml.distinct_of_parse?` : documents that are read.
-/

namespace AgentConsole.Toml

/-! ## What readers read -/

/-- Whatever a reader reads has a property. -/
def Yields {α : Type} (read : Reader α) (Q : α → Prop) : Prop :=
  ∀ ⦃cs a rest⦄, read cs = some (a, rest) → Q a

section Scalars

variable {P : Members → Prop}

theorem yields_bool : Yields bool? (EveryTable P) := by
  intro cs v rest h
  unfold bool? at h
  split at h
  · cases h
    exact .bool true
  · cases h
    exact .bool false
  · cases h

theorem yields_special : Yields special? (EveryTable P) := by
  intro cs v rest h
  unfold special? at h
  split at h
  · cases h
    exact .float _
  · cases h
    exact .float _
  · cases h

theorem yields_date : Yields date? (EveryTable P) := by
  intro cs v rest h
  unfold date? at h
  split at h
  · cases h
    exact .date _
  · obtain ⟨_, _, h⟩ := Option.map_eq_some_iff.mp h
    cases h
    exact .date _

theorem yields_float : Yields float? (EveryTable P) := by
  intro cs v rest h
  unfold float? at h
  generalize sign cs = signed at h
  obtain ⟨negative, start⟩ := signed
  obtain ⟨⟨whole, afterWhole⟩, -, h⟩ := Option.bind_eq_some_iff.mp h
  dsimp only at h
  -- a number may lack each of its parts but the first, and there is a way through the reader for
  -- each case
  repeat' first
    | cases h; exact .float _
    | split at h
    | obtain ⟨_, -, h⟩ := Option.bind_eq_some_iff.mp h

theorem yields_based (base : Nat) (isDigit : Char → Bool) :
    Yields (based base isDigit) (EveryTable P) := by
  intro cs v rest h
  obtain ⟨r, -, h⟩ := Option.bind_eq_some_iff.mp h
  dsimp only at h
  split at h
  · cases h
    exact .integer _
  · cases h

theorem yields_integer : Yields integer? (EveryTable P) := by
  intro cs v rest h
  unfold integer? at h
  split at h
  · exact yields_based _ _ h
  · exact yields_based _ _ h
  · exact yields_based _ _ h
  · generalize sign cs = signed at h
    obtain ⟨negative, digits⟩ := signed
    obtain ⟨r, -, h⟩ := Option.bind_eq_some_iff.mp h
    dsimp only at h
    split at h
    · cases h
      exact .integer _
    · split at h
      · cases h
        exact .integer _
      · cases h

theorem yields_scalar : Yields scalar? (EveryTable P) := by
  intro cs v rest h
  unfold scalar? at h
  split at h
  · cases h
    exact .string _
  · split at h
    · next hbool => exact yields_bool (hbool.trans h)
    · next hspecial => exact yields_special (hspecial.trans h)
    · next hdate => exact yields_date (hdate.trans h)
    · next hfloat => exact yields_float (hfloat.trans h)
    · exact yields_integer h

end Scalars

/-! ## Arrays and inline tables -/

variable {read : Reader Toml}

theorem yields_elements {Q : Toml → Prop} (hread : Yields read Q) :
    Yields (elements? read) fun items ↦ ∀ v ∈ items, Q v := by
  intro cs items rest h
  fun_induction elements? read cs generalizing items rest with
  | case1 cs hnone =>
    cases h
    exact nofun
  | case2 cs v afterValue hv afterComma hcomma hlt ih =>
    obtain ⟨⟨others, afterOthers⟩, hothers, h⟩ := Option.map_eq_some_iff.mp h
    cases h
    obtain ⟨_, -, hv⟩ := Option.bind_eq_some_iff.mp hv
    exact List.forall_mem_cons.mpr ⟨hread hv, ih hothers⟩
  | case3 => cases h
  | case4 cs v afterValue hv _ _ _ =>
    cases h
    obtain ⟨_, -, hv⟩ := Option.bind_eq_some_iff.mp hv
    simpa using hread hv
  | case5 => cases h

theorem yields_array (hread : Yields read Distinct) : Yields (array? read) Distinct := by
  intro cs v rest h
  obtain ⟨⟨items, afterItems⟩, hitems, h⟩ := Option.bind_eq_some_iff.mp h
  obtain ⟨_, -, h⟩ := Option.bind_eq_some_iff.mp h
  obtain ⟨_, -, h⟩ := Option.bind_eq_some_iff.mp h
  cases h
  exact .array (yields_elements hread hitems)

theorem yields_pair (hread : Yields read Distinct) :
    Yields (pair? read) fun p ↦ p.2.Distinct := by
  intro cs p rest h
  obtain ⟨⟨keys, afterKeys⟩, -, h⟩ := Option.bind_eq_some_iff.mp h
  obtain ⟨_, -, h⟩ := Option.bind_eq_some_iff.mp h
  obtain ⟨⟨v, afterValue⟩, hv, h⟩ := Option.bind_eq_some_iff.mp h
  cases h
  exact hread hv

theorem yields_pairs (hread : Yields read Distinct) :
    Yields (pairs? read) fun pairs ↦ ∀ p ∈ pairs, p.2.Distinct := by
  intro cs pairs rest h
  fun_induction pairs? read cs generalizing pairs rest with
  | case1 => cases h
  | case2 cs p afterPair hp afterComma hcomma hlt ih =>
    obtain ⟨⟨others, afterOthers⟩, hothers, h⟩ := Option.map_eq_some_iff.mp h
    cases h
    exact List.forall_mem_cons.mpr ⟨yields_pair hread hp, ih hothers⟩
  | case3 => cases h
  | case4 cs p afterPair hp _ =>
    cases h
    simpa using yields_pair hread hp

/-- What every step keeps holds in the end, if there is one. -/
theorem of_foldlM {σ α : Type} {step : σ → α → Option σ} {I : σ → Prop}
    {items : List α} (hstep : ∀ s a s', a ∈ items → I s → step s a = some s' → I s')
    {s s' : σ} (hs : I s)
    (h : items.foldlM step s = some s') : I s' := by
  induction items generalizing s with
  | nil =>
    cases h
    exact hs
  | cons a items ih =>
    rw [List.foldlM_cons] at h
    obtain ⟨t, ht, h⟩ := Option.bind_eq_some_iff.mp h
    exact ih (fun s a s' ha ↦ hstep s a s' (List.mem_cons_of_mem _ ha))
      (hstep s a t List.mem_cons_self hs ht) h

theorem distinct_of_ofPairs {pairs : List (List String × Toml)} {v : Toml}
    (hpairs : ∀ p ∈ pairs, p.2.Distinct) (h : ofPairs pairs = some v) : v.Distinct := by
  obtain ⟨members, hmembers, rfl⟩ := Option.map_eq_some_iff.mp h
  refine Node.Keyed.finish (of_foldlM ?_ Node.keyed_nil hmembers)
  exact fun before p after hp hbefore hafter ↦ hbefore.insert (hpairs p hp) hafter

theorem yields_inlineTable (hread : Yields read Distinct) :
    Yields (inlineTable? read) Distinct := by
  intro cs v rest h
  unfold inlineTable? at h
  split at h
  · cases h
    exact .table List.nodup_nil nofun
  · obtain ⟨⟨pairs, afterPairs⟩, hpairs, h⟩ := Option.bind_eq_some_iff.mp h
    obtain ⟨table, htable, h⟩ := Option.bind_eq_some_iff.mp h
    obtain ⟨_, -, h⟩ := Option.bind_eq_some_iff.mp h
    cases h
    exact distinct_of_ofPairs (yields_pairs hread hpairs) htable

theorem yields_valueWithin (room : Nat) : Yields (valueWithin room) Distinct := by
  induction room with
  | zero =>
    intro cs v rest h
    rw [valueWithin] at h
    split at h
    · cases h
    · exact yields_scalar h
  | succ room ih =>
    intro cs v rest h
    unfold valueWithin at h
    split at h
    · exact yields_array ih h
    · exact yields_inlineTable ih h
    · exact yields_scalar h

/-! ## Documents -/

/-- The value that an expression gives, if it gives one, has no key twice. -/
def Expression.Distinct : Expression → Prop
  | .pair _ v => v.Distinct
  | .table _ | .element _ => True

theorem yields_expression : Yields expression? Expression.Distinct := by
  intro cs e rest h
  unfold expression? at h
  split at h
  · unfold header? at h
    split at h
    · obtain ⟨_, -, h⟩ := Option.bind_eq_some_iff.mp h
      obtain ⟨_, -, h⟩ := Option.bind_eq_some_iff.mp h
      obtain ⟨_, -, h⟩ := Option.bind_eq_some_iff.mp h
      cases h
      trivial
    · obtain ⟨_, -, h⟩ := Option.bind_eq_some_iff.mp h
      obtain ⟨_, -, h⟩ := Option.bind_eq_some_iff.mp h
      cases h
      trivial
    · cases h
  · obtain ⟨r, hr, h⟩ := Option.map_eq_some_iff.mp h
    cases h
    exact yields_pair (yields_valueWithin depthLimit) hr

theorem yields_line : Yields line? fun e ↦ ∀ x ∈ e, x.Distinct := by
  intro cs e rest h
  unfold line? at h
  split at h
  · cases h
    exact nofun
  · obtain ⟨⟨x, afterExpression⟩, hx, h⟩ := Option.bind_eq_some_iff.mp h
    obtain ⟨_, -, h⟩ := Option.bind_eq_some_iff.mp h
    cases h
    rintro _ ⟨⟩
    exact yields_expression hx

theorem distinct_of_mem_expressions {cs : List Char} {expressions : List Expression}
    (h : expressions? cs = some expressions) : ∀ e ∈ expressions, e.Distinct := by
  fun_induction expressions? cs generalizing expressions with
  | case1 =>
    cases h
    exact nofun
  | case2 => cases h
  | case3 cs hne e rest hline hlt ih =>
    obtain ⟨others, hothers, rfl⟩ := Option.map_eq_some_iff.mp h
    intro x hx
    rcases List.mem_append.mp hx with hx | hx
    · exact yields_line hline x (Option.mem_toList.mp hx)
    · exact ih hothers x hx
  | case4 => cases h

theorem Assembly.keyed_add {a a' : Assembly} {e : Expression} (ha : Node.Keyed a.members)
    (he : e.Distinct) (h : a.add e = some a') : Node.Keyed a'.members := by
  cases e with
  | pair keys v =>
    obtain ⟨members, hmembers, rfl⟩ := Option.map_eq_some_iff.mp h
    exact ha.along (fun _ _ _ hbefore hafter ↦ hbefore.insert he hafter) hmembers
  | table keys =>
    obtain ⟨members, hmembers, rfl⟩ := Option.map_eq_some_iff.mp h
    exact ha.define hmembers
  | element keys =>
    obtain ⟨members, hmembers, rfl⟩ := Option.map_eq_some_iff.mp h
    exact ha.extend hmembers

/-- A document that can be read has no key twice, neither at its top nor in any table in it. -/
theorem distinct_of_parse? {text : String} {members : Members} (h : parse? text = some members) :
    (table members).Distinct := by
  obtain ⟨expressions, hexpressions, h⟩ := Option.bind_eq_some_iff.mp h
  obtain ⟨a, ha, rfl⟩ := Option.map_eq_some_iff.mp h
  have hdistinct := distinct_of_mem_expressions hexpressions
  refine Node.Keyed.finish (of_foldlM (I := fun a ↦ Node.Keyed a.members) ?_ Node.keyed_nil ha)
  exact fun before e after he hbefore hafter ↦ Assembly.keyed_add hbefore (hdistinct e he) hafter

end AgentConsole.Toml
