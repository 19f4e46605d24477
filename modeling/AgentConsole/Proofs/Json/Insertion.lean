import AgentConsole.Proofs.Json.Reread

/-!
# Objects with one more member

A member is added to an object by writing it before the closing brace.  That this is what the reader
sees has two sides.  Reading goes from left to right, so the front of the text is read as before,
and only the state that it ends in matters: between two tokens, with the outermost object open.  And
the value that is added is read inside the object as it is read alone, since no reading ever looks
below the containers that it has opened itself.

* `Json.tokensFrom_append`, `Json.parseFrom_append` : both passes of the reader go on from where
  they stand.
* `Json.stepToken_onto` : reading inside of containers.
* `Json.addsMember_withMember` : the object with the member.
-/

namespace AgentConsole.Json

/-! ## The first pass, taken apart -/

theorem stepChar_append (p : Position) (acc before : List Token) (c : Char) :
    stepChar p (acc ++ before) c = (stepChar p acc c).map fun r ↦ (r.1, r.2 ++ before) := by
  have hbetween : ∀ acc : List Token, stepBetween (acc ++ before) c =
      (stepBetween acc c).map fun r ↦ (r.1, r.2 ++ before) := by
    intro acc
    unfold stepBetween
    split
    · rfl
    split
    · rfl
    split
    · rfl
    · cases mark? c <;> rfl
  cases p with
  | between => exact hbetween acc
  | word chars =>
    rw [stepChar, stepChar]
    split
    · rfl
    · cases word? chars.reverse with
      | none => rfl
      | some j => exact hbetween (.leaf j :: acc)
  | inString content =>
    rw [stepChar, stepChar]
    split
    · rfl
    split
    · rfl
    split <;> rfl
  | escape content =>
    rw [stepChar, stepChar]
    split
    · rfl
    · cases escaped? c <;> rfl
  | unit content left value =>
    rw [stepChar, stepChar]
    cases hexValue? c with
    | none => rfl
    | some v =>
      dsimp only [Option.map_some]
      split <;> rfl

/-- Tokens that have been read already stay in front. -/
theorem tokensFrom_eq_map (p : Position) (acc before : List Token) (cs : List Char) :
    tokensFrom p (acc ++ before) cs = (tokensFrom p acc cs).map (before.reverse ++ ·) := by
  induction cs generalizing p acc with
  | nil =>
    cases p with
    | between => simp [tokensFrom]
    | word chars => cases h : word? chars.reverse <;> simp [tokensFrom, h]
    | _ => rfl
  | cons c cs ih =>
    rw [tokensFrom, tokensFrom, stepChar_append, Option.bind_map]
    cases stepChar p acc c with
    | none => rfl
    | some r => exact ih r.1 r.2

/-- A text that can be read by itself is read in front of another one, unless a word would go on. -/
theorem tokensFrom_append {p : Position} {acc ts : List Token} {cs : List Char}
    (h : tokensFrom p acc cs = some ts) {rest : List Char} (hrest : EndsWord rest) :
    tokensFrom p acc (cs ++ rest) = tokensFrom .between ts.reverse rest := by
  induction cs generalizing p acc with
  | nil =>
    cases p with
    | between =>
      cases h
      rw [List.reverse_reverse]
      rfl
    | word chars =>
      obtain ⟨j, hj, rfl⟩ := Option.map_eq_some_iff.mp h
      have hword := @tokensFrom_of_word [] nofun chars acc rest hrest
      rw [List.append_nil, hj] at hword
      rw [hword, List.reverse_reverse]
      rfl
    | _ => cases h
  | cons c cs ih =>
    rw [tokensFrom] at h
    obtain ⟨r, hr, h⟩ := Option.bind_eq_some_iff.mp h
    rw [List.cons_append, tokensFrom, hr, Option.bind_some, ih h]

/-- Blanks at the end of a text are passed over. -/
theorem tokensFrom_blanks {back : List Char} (h : ∀ c ∈ back, isBlank c = true)
    (acc : List Token) :
    tokensFrom .between acc back = some acc.reverse := by
  induction back with
  | nil => rfl
  | cons c back ih =>
    obtain ⟨hc, hback⟩ := List.forall_mem_cons.mp h
    rw [tokensFrom, stepChar, stepBetween, if_pos hc, Option.bind_some, ih hback]

/-- A string is not ended by blanks. -/
theorem tokensFrom_inString_blanks {back : List Char} (h : ∀ c ∈ back, isBlank c = true)
    (content : Content) (acc : List Token) : tokensFrom (.inString content) acc back = none := by
  induction back generalizing content with
  | nil => rfl
  | cons c back ih =>
    obtain ⟨hc, hback⟩ := List.forall_mem_cons.mp h
    have hquote : ¬ c = '"' := by
      rintro rfl
      cases hc
    have hbackslash : ¬ c = '\\' := by
      rintro rfl
      cases hc
    rw [tokensFrom, stepChar, if_neg hquote, if_neg hbackslash]
    split
    · rfl
    · exact ih hback _

/-- What stands before the last brace of a text can be read by itself. -/
theorem exists_tokensFrom_front {front back : List Char} (hback : ∀ c ∈ back, isBlank c = true)
    {p : Position} {acc ts : List Token} (h : tokensFrom p acc (front ++ '}' :: back) = some ts) :
    ∃ ts', tokensFrom p acc front = some ts' := by
  induction front generalizing p acc with
  | nil =>
    rw [List.nil_append, tokensFrom] at h
    obtain ⟨r, hr, h⟩ := Option.bind_eq_some_iff.mp h
    cases p with
    | between => exact ⟨_, rfl⟩
    | word chars =>
      obtain ⟨j, hj, -⟩ := Option.bind_eq_some_iff.mp hr
      exact ⟨_, by rw [tokensFrom, hj]; rfl⟩
    | inString content =>
      cases hr
      rw [tokensFrom_inString_blanks hback] at h
      cases h
    | escape content => cases hr
    | unit content left value => cases hr
  | cons c front ih =>
    rw [List.cons_append, tokensFrom] at h
    obtain ⟨r, hr, h⟩ := Option.bind_eq_some_iff.mp h
    obtain ⟨ts', hts'⟩ := ih h
    exact ⟨ts', by rw [tokensFrom, hr, Option.bind_some, hts']⟩

/-! ## The second pass, taken apart -/

theorem parseFrom_append (e : Expectation) (ts ts' : List Token) :
    parseFrom e (ts ++ ts') = (ts.foldlM stepToken e).bind fun e ↦ parseFrom e ts' := by
  induction ts generalizing e with
  | nil => rfl
  | cons t ts ih =>
    rw [List.cons_append, parseFrom_cons, List.foldlM_cons]
    cases stepToken e t with
    | none => rfl
    | some e' => exact ih e'

/-- The same expectation with more containers open below. -/
def Expectation.onto (below : List Frame) : Expectation → Expectation
  | .value stack => .value (stack ++ below)
  | .firstItem stack => .firstItem (stack ++ below)
  | .firstKey stack => .firstKey (stack ++ below)
  | .key members stack => .key members (stack ++ below)
  | .colon members k stack => .colon members k (stack ++ below)
  | .rest v stack => .rest v (stack ++ below)

theorem beginValue_onto {stack : List Frame} {e : Expectation} {t : Token}
    (h : beginValue stack t = some e) (below : List Frame) :
    beginValue (stack ++ below) t = some (e.onto below) := by
  cases t <;> cases h <;> rfl

/-- What a token does does not depend on the containers below. -/
theorem stepToken_onto {e e' : Expectation} {t : Token} (h : stepToken e t = some e')
    (below : List Frame) :
    stepToken (e.onto below) t = some (e'.onto below) := by
  unfold stepToken at h
  split at h
  case h_1 => exact beginValue_onto h below
  case h_3 hne =>
    have hbegin := beginValue_onto h below
    cases t with
    | closeArray => exact (hne rfl).elim
    | _ => exact hbegin
  case h_12 => cases h
  all_goals
    cases h
    rfl

/-- A value is read in a container as it is read alone. -/
theorem parseFrom_onto {e : Expectation} {ts : List Token} {v : Json} (h : parseFrom e ts = some v)
    (below : List Frame) (ts' : List Token) :
    parseFrom (e.onto below) (ts ++ ts') = parseFrom (.rest v below) ts' := by
  induction ts generalizing e with
  | nil =>
    cases e with
    | rest v' stack =>
      cases stack with
      | nil =>
        cases h
        rfl
      | cons f stack => cases h
    | _ => cases h
  | cons t ts ih =>
    rw [parseFrom_cons] at h
    obtain ⟨e', he', h⟩ := Option.bind_eq_some_iff.mp h
    rw [List.cons_append, parseFrom_cons, stepToken_onto he' below, Option.bind_some, ih h]

/-- A value whose last token closes an object is this object. -/
theorem cases_of_parseFrom_closeObject {e : Expectation} {j : Json}
    (h : parseFrom e [.closeObject] = some j) :
    (e = .firstKey [] ∧ j = ofMembers []) ∨
      ∃ v members key, e = .rest v [.object members key] ∧
        j = ofMembers (members.reverse ++ [(key, v)]) := by
  rw [parseFrom_cons] at h
  obtain ⟨e', he', h⟩ := Option.bind_eq_some_iff.mp h
  have hlast : ∀ v stack, parseFrom (.rest v stack) [] = some j → stack = [] ∧ v = j := by
    intro v stack hv
    cases stack with
    | nil => exact ⟨rfl, Option.some.inj hv⟩
    | cons f stack => cases hv
  cases e with
  | firstKey stack =>
    cases he'
    obtain ⟨rfl, rfl⟩ := hlast _ _ h
    exact .inl ⟨rfl, rfl⟩
  | rest v stack =>
    cases stack with
    | nil => cases he'
    | cons f stack =>
      cases f with
      | array items => cases he'
      | object members key =>
        cases he'
        obtain ⟨rfl, rfl⟩ := hlast _ _ h
        exact .inr ⟨v, members, key, rfl, by rw [List.reverse_cons]⟩
  | _ => cases he'

/-! ## Insertion -/

/-- The text of an object with one more member.  The text is given as it stands before and after its
closing brace. -/
def insertion (front back : List Char) (isEmpty : Bool) (key : String) (value : List Char) :
    List Char :=
  front ++ ((if isEmpty then [] else [',']) ++ (quote key ++ ':' :: (value ++ '}' :: back)))

/-- The tokens of a text with a member before its closing brace. -/
theorem tokens?_insertion {front back value : List Char} {ts ts' : List Token}
    (hback : ∀ c ∈ back, isBlank c = true) (hfront : tokens? front = some ts)
    (hvalue : tokens? value = some ts') (isEmpty : Bool) (key : String) :
    tokens? (insertion front back isEmpty key value) =
      some (ts ++ ((if isEmpty then [] else [.comma]) ++
        (.string (some key) :: .colon :: (ts' ++ [.closeObject])))) := by
  have hmember : ∀ acc, tokensFrom .between acc (quote key ++ ':' :: (value ++ '}' :: back)) =
      some (acc.reverse ++ (.string (some key) :: .colon :: (ts' ++ [.closeObject]))) := by
    intro acc
    rw [tokensFrom_quote]
    change tokensFrom .between ([] ++ .colon :: .string (some key) :: acc) (value ++
      '}' :: back) = _
    have hbrace : EndsWord ('}' :: back) := endsWord_cons (by decide) back
    rw [tokensFrom_eq_map, tokensFrom_append hvalue hbrace]
    change (tokensFrom .between (.closeObject :: ts'.reverse) back).map _ = _
    rw [tokensFrom_blanks hback]
    simp
  have hrest : EndsWord
      ((if isEmpty then [] else [',']) ++ (quote key ++ ':' :: (value ++ '}' :: back))) := by
    cases isEmpty <;> exact endsWord_cons (by decide) _
  rw [insertion, tokens?, tokensFrom_append hfront hrest]
  cases isEmpty with
  | true =>
    rw [if_pos rfl, List.nil_append, hmember, List.reverse_reverse]
    rfl
  | false =>
    change tokensFrom .between (.comma :: ts.reverse) (quote key ++ ':' :: (value ++ '}' :: back)) =
      _
    rw [hmember]
    simp

/-- A text that ends with a brace and blanks is an object, and with one more member before the brace
it is the object with that member. -/
theorem read?_insertion {front back : List Char} (hback : ∀ c ∈ back, isBlank c = true)
    {j : Json} (h : read? (front ++ '}' :: back) = some j) :
    ∃ members, j = ofMembers members ∧ ∀ (key : String) (value : List Char) (v : Json),
      read? value = some v →
        read? (insertion front back members.isEmpty key value) =
          some (ofMembers (members ++ [(some key, v)])) := by
  obtain ⟨ts, hts, hparse⟩ := Option.bind_eq_some_iff.mp h
  obtain ⟨fts, hfront⟩ := exists_tokensFrom_front hback hts
  have htokens : ts = fts ++ [.closeObject] := by
    rw [tokens?, tokensFrom_append hfront (endsWord_cons (by decide) back)] at hts
    change tokensFrom .between (.closeObject :: fts.reverse) back = _ at hts
    rw [tokensFrom_blanks hback] at hts
    cases hts
    simp
  rw [htokens, parseFrom_append] at hparse
  obtain ⟨e, he, hlast⟩ := Option.bind_eq_some_iff.mp hparse
  -- the value is read inside the object, and the brace ends it
  have hmember : ∀ members key value v, read? value = some v →
      ∃ ts', tokens? value = some ts' ∧
        parseFrom (.colon members (some key) []) (.colon :: (ts' ++ [.closeObject])) =
          some (ofMembers (members.reverse ++ [(some key, v)])) := by
    intro members key value v hv
    obtain ⟨ts', hts', hparse'⟩ := Option.bind_eq_some_iff.mp hv
    refine ⟨ts', hts', ?_⟩
    have honto := parseFrom_onto hparse' [.object members (some key)] [.closeObject]
    rw [← List.reverse_cons]
    exact honto
  rcases cases_of_parseFrom_closeObject hlast with ⟨rfl, rfl⟩ |
    ⟨v₀, members, key₀, rfl, rfl⟩
  · refine ⟨[], rfl, fun key value v hv ↦ ?_⟩
    obtain ⟨ts', hts', hmem⟩ := hmember [] key value v hv
    rw [read?, tokens?_insertion hback hfront hts', Option.bind_some, parseFrom_append, he]
    exact hmem
  · refine ⟨members.reverse ++ [(key₀, v₀)], rfl, fun key value v hv ↦ ?_⟩
    obtain ⟨ts', hts', hmem⟩ := hmember ((key₀, v₀) :: members) key value v hv
    have hisEmpty : (members.reverse ++ [(key₀, v₀)]).isEmpty = false := by simp
    rw [read?, hisEmpty, tokens?_insertion hback hfront hts', Option.bind_some,
      parseFrom_append, he, ← List.reverse_cons]
    exact hmem

/-- The text of an object with one more member before its closing brace. -/
def withMember (front back : String) (isEmpty : Bool) (key value : String) : String :=
  front ++ (if isEmpty then "" else ",") ++ text (.string key) ++ ":" ++ value ++ "\x7d" ++ back

/-- The text `s'` has the members of the object text `s` and one more among them, whose key is
new. -/
def AddsMember (key : String) (v : Json) (s s' : String) : Prop :=
  ∃ before after, (∀ m ∈ before ++ after, m.1 ≠ some key) ∧
    parse? s = some (ofMembers (before ++ after)) ∧
    parse? s' = some (ofMembers (before ++ (some key, v) :: after))

/-- A text that ends with a brace and blanks is the text of an object.  If none of its members has a
key, then a member with that key is added by writing it before the brace. -/
theorem addsMember_withMember {front back value : String}
    (hback : ∀ c ∈ back.toList, isBlank c = true) {j v : Json}
    (hj : parse? (front ++ "\x7d" ++ back) = some j) (hv : parse? value = some v)
    (key : String) :
    ∃ members, j = ofMembers members ∧ ((∀ m ∈ members, m.1 ≠ some key) →
      AddsMember key v (front ++ "\x7d" ++ back)
        (withMember front back members.isEmpty key value)) := by
  have htext : (front ++ "\x7d" ++ back).toList = front.toList ++ '}' :: back.toList := by simp
  have hread := hj
  rw [parse?, htext] at hread
  obtain ⟨members, rfl, hinsert⟩ := read?_insertion hback hread
  refine ⟨members, rfl, fun hkey ↦ ⟨members, [], ?_, ?_, ?_⟩⟩
  · rwa [List.append_nil]
  · rw [hj, List.append_nil]
  · have hwith : (withMember front back members.isEmpty key value).toList =
        insertion front.toList back.toList members.isEmpty key value.toList := by
      cases members.isEmpty <;> simp [withMember, insertion, text, chars]
    rw [parse?, hwith]
    exact hinsert key value.toList v hv

end AgentConsole.Json
