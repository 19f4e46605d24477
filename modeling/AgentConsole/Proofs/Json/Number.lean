import AgentConsole.Proofs.Json.Reread
import Mathlib.Data.List.TakeWhile

/-!
# Numbers in texts

Every number of a value that has been read stands in the text as a numeral, so that an integer has
at most 64 bits.  Such integers are read from their numerals as they are.  Floating-point numbers
are not always: a numeral is read as its significand times a power of ten, both rounded and rounded
once more, so that even the shortest numeral of a number may be read as its neighbour.

* `Json.exists_word_of_occurs` : where the numbers of a value come from.
* `Json.bounded_of_word?` : the integers that numerals stand for.
* `Json.word?_intChars` : an integer of 64 bits is read from its numeral.
-/

namespace AgentConsole.Json

/-! ## The numbers of a value -/

/-- A number stands somewhere in a value. -/
inductive Occurs (n : Number) : Json → Prop where
  | number : Occurs n (.number n)
  | array {items : List Json} {j : Json} (mem : j ∈ items) (h : Occurs n j) :
    Occurs n (.array items)
  | object {members : Members} {m : String × Json} (mem : m ∈ members) (h : Occurs n m.2) :
    Occurs n (.object members)

section

variable {n : Number}

@[simp] theorem occurs_number_iff {m : Number} : Occurs n (.number m) ↔ n = m := by
  constructor
  · rintro ⟨⟩
    rfl
  · rintro rfl
    exact .number

@[simp] theorem occurs_array_iff {items : List Json} :
    Occurs n (.array items) ↔ ∃ j ∈ items, Occurs n j := by
  constructor
  · rintro (_ | ⟨mem, h⟩)
    exact ⟨_, mem, h⟩
  · rintro ⟨j, mem, h⟩
    exact .array mem h

@[simp] theorem occurs_object_iff {members : Members} :
    Occurs n (.object members) ↔ ∃ m ∈ members, Occurs n m.2 := by
  constructor
  · rintro (_ | _ | ⟨mem, h⟩)
    exact ⟨_, mem, h⟩
  · rintro ⟨m, mem, h⟩
    exact .object mem h

@[simp] theorem not_occurs_null : ¬ Occurs n .null := nofun

@[simp] theorem not_occurs_bool (b : Bool) : ¬ Occurs n (.bool b) := nofun

@[simp] theorem not_occurs_string (s : String) : ¬ Occurs n (.string s) := nofun

end

theorem occurs_of_occurs_normal {n : Number} {j : Json} (h : Occurs n (normal j)) : Occurs n j := by
  induction j using Json.induction with
  | null | bool | number | string | void => exact h
  | array items ih =>
    rw [normal, normalItems_eq_map] at h
    cases h with
    | array mem h =>
      obtain ⟨j, hj, rfl⟩ := List.mem_map.mp mem
      exact .array hj (ih j hj h)
  | object members ih =>
    rw [normal] at h
    cases h with
    | object mem h =>
      obtain ⟨m, hm, -, heq⟩ := mem_of_mem_normalMembers mem
      rw [← heq] at h
      exact .object hm (ih m hm h)

/-- A condition on values that holds of a container if it holds of what is in it. -/
structure Inherited (P : Json → Prop) : Prop where
  string : ∀ s, P (.string s)
  void : P .void
  array : ∀ items, (∀ j ∈ items, P j) → P (.array items)
  object : ∀ members : Members, (∀ m ∈ members, P m.2) → P (.object members)

/-- All values of a container that is still open meet a condition. -/
def Frame.All (P : Json → Prop) : Frame → Prop
  | .array items => ∀ j ∈ items, P j
  | .object members _ => ∀ m ∈ members, P m.2

/-- All values that have been read meet a condition. -/
def Expectation.All (P : Json → Prop) : Expectation → Prop
  | .value stack | .firstItem stack | .firstKey stack => ∀ f ∈ stack, f.All P
  | .key members stack | .colon members _ stack =>
    (∀ m ∈ members, P m.2) ∧ ∀ f ∈ stack, f.All P
  | .rest v stack => P v ∧ ∀ f ∈ stack, f.All P

/-- The value of a token that is one meets a condition. -/
def Token.All (P : Json → Prop) : Token → Prop
  | .leaf j => P j
  | _ => True

variable {P : Json → Prop}

theorem Inherited.ofMembers (hP : Inherited P) {members : List (Option String × Json)}
    (h : ∀ m ∈ members, P m.2) : P (ofMembers members) := by
  have hall : ∀ ms, (members.mapM fun m ↦ m.1.map fun key ↦ (key, m.2)) = some ms →
      ∀ m ∈ ms, P m.2 := by
    intro ms hms m hm
    obtain ⟨m', hm', hread⟩ := exists_of_mem_mapM hms hm
    obtain ⟨key, -, rfl⟩ := Option.map_eq_some_iff.mp hread
    exact h m' hm'
  rw [Json.ofMembers]
  split
  · next ms hms => exact hP.object ms (hall ms hms)
  · exact hP.void

theorem Inherited.beginValue (hP : Inherited P) {stack : List Frame} {e : Expectation} {t : Token}
    (h : beginValue stack t = some e) (hstack : ∀ f ∈ stack, f.All P) (ht : t.All P) :
    e.All P := by
  unfold Json.beginValue at h
  split at h
  case h_1 | h_2 =>
    cases h
    exact hstack
  case h_3 content =>
    cases h
    refine ⟨?_, hstack⟩
    cases content with
    | some s => exact hP.string s
    | none => exact hP.void
  case h_4 =>
    cases h
    exact ⟨ht, hstack⟩
  case h_5 => cases h

/-- What a token adds meets the condition if its value does. -/
theorem Inherited.stepToken (hP : Inherited P) {e e' : Expectation} {t : Token}
    (h : stepToken e t = some e') (he : e.All P) (ht : t.All P) : e'.All P := by
  unfold Json.stepToken at h
  split at h
  case h_1 => exact hP.beginValue h he ht
  case h_2 =>
    cases h
    exact ⟨hP.array [] nofun, he⟩
  case h_3 => exact hP.beginValue h (List.forall_mem_cons.mpr ⟨nofun, he⟩) ht
  case h_4 =>
    cases h
    exact ⟨hP.object [] nofun, he⟩
  case h_5 =>
    cases h
    exact ⟨nofun, he⟩
  case h_6 =>
    cases h
    exact he
  case h_7 =>
    cases h
    exact List.forall_mem_cons.mpr he
  case h_8 =>
    cases h
    obtain ⟨hv, hstack⟩ := he
    obtain ⟨hitems, hstack⟩ := List.forall_mem_cons.mp hstack
    exact List.forall_mem_cons.mpr ⟨List.forall_mem_cons.mpr ⟨hv, hitems⟩, hstack⟩
  case h_9 =>
    cases h
    obtain ⟨hv, hstack⟩ := he
    obtain ⟨hitems, hstack⟩ := List.forall_mem_cons.mp hstack
    refine ⟨hP.array _ fun j hj ↦ ?_, hstack⟩
    exact List.forall_mem_cons.mpr ⟨hv, hitems⟩ j (List.mem_reverse.mp hj)
  case h_10 =>
    cases h
    obtain ⟨hv, hstack⟩ := he
    obtain ⟨hmembers, hstack⟩ := List.forall_mem_cons.mp hstack
    exact ⟨List.forall_mem_cons.mpr ⟨hv, hmembers⟩, hstack⟩
  case h_11 =>
    cases h
    obtain ⟨hv, hstack⟩ := he
    obtain ⟨hmembers, hstack⟩ := List.forall_mem_cons.mp hstack
    refine ⟨hP.ofMembers fun m hm ↦ ?_, hstack⟩
    rcases List.mem_cons.mp (List.mem_reverse.mp hm) with rfl | hm
    · exact hv
    · exact hmembers m hm
  case h_12 => cases h

theorem Inherited.parseFrom (hP : Inherited P) {e : Expectation} {ts : List Token} {j : Json}
    (h : parseFrom e ts = some j) (he : e.All P) (hts : ∀ t ∈ ts, t.All P) : P j := by
  induction ts generalizing e with
  | nil =>
    cases e with
    | rest v stack =>
      cases stack with
      | nil =>
        cases h
        exact he.1
      | cons f stack => cases h
    | _ => cases h
  | cons t ts ih =>
    rw [parseFrom_cons] at h
    obtain ⟨e', hstep, h⟩ := Option.bind_eq_some_iff.mp h
    obtain ⟨ht, hts⟩ := List.forall_mem_cons.mp hts
    exact ih h (hP.stepToken hstep he ht) hts

theorem all_stepBetween {acc acc' : List Token} {p : Position} {c : Char}
    (h : stepBetween acc c = some (p, acc')) (hacc : ∀ t ∈ acc, t.All P) :
    ∀ t ∈ acc', t.All P := by
  unfold stepBetween at h
  split at h
  · cases h
    exact hacc
  split at h
  · cases h
    exact hacc
  split at h
  · cases h
    exact hacc
  · obtain ⟨t, ht, h⟩ := Option.map_eq_some_iff.mp h
    cases h
    refine List.forall_mem_cons.mpr ⟨?_, hacc⟩
    unfold mark? at ht
    split at ht <;> cases ht <;> trivial

/-- Only a word adds a value to the tokens. -/
theorem all_stepChar (hword : ∀ word j, word? word = some j → P j) {p p' : Position}
    {acc acc' : List Token} {c : Char} (h : stepChar p acc c = some (p', acc'))
    (hacc : ∀ t ∈ acc, t.All P) : ∀ t ∈ acc', t.All P := by
  unfold stepChar at h
  split at h
  case h_1 => exact all_stepBetween h hacc
  case h_2 =>
    split at h
    · cases h
      exact hacc
    · obtain ⟨j, hj, h⟩ := Option.bind_eq_some_iff.mp h
      exact all_stepBetween h (List.forall_mem_cons.mpr ⟨hword _ j hj, hacc⟩)
  case h_3 =>
    split at h
    · cases h
      exact List.forall_mem_cons.mpr ⟨trivial, hacc⟩
    split at h
    · cases h
      exact hacc
    split at h
    · cases h
    · cases h
      exact hacc
  case h_4 =>
    split at h
    · cases h
      exact hacc
    · obtain ⟨e, -, h⟩ := Option.map_eq_some_iff.mp h
      cases h
      exact hacc
  case h_5 =>
    obtain ⟨v, -, h⟩ := Option.map_eq_some_iff.mp h
    dsimp only at h
    split at h
    · cases h
      exact hacc
    · cases h
      exact hacc

theorem all_tokensFrom (hword : ∀ word j, word? word = some j → P j) {p : Position}
    {acc ts : List Token} {cs : List Char} (h : tokensFrom p acc cs = some ts)
    (hacc : ∀ t ∈ acc, t.All P) :
    ∀ t ∈ ts, t.All P := by
  induction cs generalizing p acc with
  | nil =>
    cases p with
    | between =>
      cases h
      exact fun t ht ↦ hacc t (List.mem_reverse.mp ht)
    | word chars =>
      obtain ⟨j, hj, rfl⟩ := Option.map_eq_some_iff.mp h
      intro t ht
      have hleaf : (Token.leaf j).All P := hword _ j hj
      exact List.forall_mem_cons.mpr ⟨hleaf, hacc⟩ t (List.mem_reverse.mp ht)
    | _ => cases h
  | cons c cs ih =>
    rw [tokensFrom] at h
    obtain ⟨r, hstep, h⟩ := Option.bind_eq_some_iff.mp h
    exact ih h (all_stepChar hword hstep hacc)

/-- A condition that is inherited holds of a value that has been read if it holds of what words
stand for. -/
theorem Inherited.read? (hP : Inherited P) (hword : ∀ word j, word? word = some j → P j)
    {cs : List Char} {j : Json} (h : read? cs = some j) : P j := by
  obtain ⟨ts, hts, h⟩ := Option.bind_eq_some_iff.mp h
  exact hP.parseFrom h (fun _ hf ↦ by cases hf)
    (all_tokensFrom hword hts (fun _ ht ↦ by cases ht))

/-- A number of a value that has been read stands in the text as a word. -/
theorem exists_word_of_occurs {s : String} {j : Json} (h : parse? s = some j) {n : Number}
    (hn : Occurs n j) : ∃ word, word? word = some (.number n) := by
  have hP : Inherited fun j ↦ ∀ n, Occurs n j → ∃ word, word? word = some (.number n) := by
    refine ⟨?_, ?_, ?_, ?_⟩
    · intro s n hn
      cases hn
    · intro n hn
      cases hn
    · intro items hitems n hn
      cases hn with
      | array mem hn => exact hitems _ mem n hn
    · intro members hmembers n hn
      cases hn with
      | object mem hn => exact hmembers _ mem n hn
  refine hP.read? ?_ h n hn
  intro word j hj n hn
  have htokens := tokens_of_word? hj
  cases hn with
  | number => exact ⟨word, hj⟩
  | @array items =>
    cases items <;> cases htokens
  | @object members =>
    cases members <;> cases htokens

/-! ## Integers -/

/-- An integer fits 64 bits, with a sign where it is negative. -/
def Bounded : Number → Prop
  | .int n => -(Nat.pow 2 63 : Nat) ≤ n ∧ n < (Nat.pow 2 64 : Nat)
  | .float _ => True

theorem bounded_of_toNumber? {m : Numeral} {n : Number} (h : m.toNumber? = some n) : Bounded n := by
  have hfloat : ∀ {n}, m.toFloat?.map Number.float = some n → Bounded n := by
    intro n h
    obtain ⟨x, -, rfl⟩ := Option.map_eq_some_iff.mp h
    trivial
  cases hneg : m.negative with
  | true =>
    simp only [Numeral.toNumber?, hneg, if_true] at h
    split at h
    · next hint =>
      cases h
      simp only [Bool.and_eq_true, decide_eq_true_eq] at hint
      have hle : Numeral.valueOf m.whole ≤ Nat.pow 2 63 := hint.2.2
      exact ⟨by omega, by omega⟩
    · exact hfloat h
  | false =>
    simp only [Numeral.toNumber?, hneg, Bool.false_eq_true, if_false] at h
    split at h
    · next hint =>
      cases h
      simp only [Bool.and_eq_true, decide_eq_true_eq] at hint
      have hlt : Numeral.valueOf m.whole < Nat.pow 2 64 := hint.2
      exact ⟨by omega, by omega⟩
    · exact hfloat h

/-- Numerals stand for integers of 64 bits at most. -/
theorem bounded_of_word? {word : List Char} {n : Number} (h : word? word = some (.number n)) :
    Bounded n := by
  unfold word? at h
  split at h
  · cases h
  split at h
  · cases h
  split at h
  · cases h
  · obtain ⟨m, -, hm⟩ := Option.map_eq_some_iff.mp h
    cases hn : m.toNumber? with
    | none =>
      rw [hn] at hm
      cases hm
    | some n' =>
      rw [hn] at hm
      cases hm
      exact bounded_of_toNumber? hn

/-- The decimal digits of a number do not start with a zero, unless there is just this one. -/
theorem eq_zero_of_toDigits_eq_zero_cons {n : Nat} {cs : List Char}
    (h : Nat.toDigits 10 n = '0' :: cs) :
    n = 0 := by
  induction n using Nat.strongRecOn generalizing cs with
  | ind n ih =>
    by_cases hlt : n < 10
    · rw [Nat.toDigits_of_lt_base hlt] at h
      have hdigit : ∀ k < 10, Nat.digitChar k = '0' → k = 0 := by decide
      exact hdigit n hlt (List.cons.inj h).1
    · rw [Nat.toDigits_of_base_le (by decide) (Nat.not_lt.mp hlt)] at h
      cases hfront : Nat.toDigits 10 (n / 10) with
      | nil => exact absurd hfront Nat.toDigits_ne_nil
      | cons c front =>
        rw [hfront, List.cons_append] at h
        obtain ⟨rfl, -⟩ := List.cons.inj h
        have hzero : n / 10 = 0 := ih (n / 10) (by omega) hfront
        omega

theorem whole?_toDigits (n : Nat) :
    Numeral.whole? (Nat.toDigits 10 n) = some (Nat.toDigits 10 n, []) := by
  have hdigit : ∀ c ∈ Nat.toDigits 10 n, c.isDigit = true := fun c hc ↦
    Nat.isDigit_of_mem_toDigits (by decide) (by decide) hc
  have hdigits : Numeral.digits? (Nat.toDigits 10 n) = some (Nat.toDigits 10 n, []) := by
    have htake : (Nat.toDigits 10 n).takeWhile Char.isDigit = Nat.toDigits 10 n :=
      List.takeWhile_eq_self_iff.mpr hdigit
    have hdrop : (Nat.toDigits 10 n).dropWhile Char.isDigit = [] :=
      List.dropWhile_eq_nil_iff.mpr hdigit
    rw [Numeral.digits?]
    simp [htake, hdrop, Nat.toDigits_ne_nil]
  rw [Numeral.whole?, hdigits]
  split
  · next c cs rest heq =>
    have hcons : Nat.toDigits 10 n = '0' :: c :: cs := congrArg Prod.fst (Option.some.inj heq)
    have hzero := eq_zero_of_toDigits_eq_zero_cons hcons
    subst hzero
    cases hcons
  · rfl

theorem valueOf_toDigits (n : Nat) : Numeral.valueOf (Nat.toDigits 10 n) = n :=
  Nat.ofDigitChars_ten_toDigits

/-- An integer is written as a numeral without point and exponent. -/
theorem read?_intChars (n : Int) :
    Numeral.read? (intChars n) = some ⟨decide (n < 0), Nat.toDigits 10 n.natAbs,
      none, none⟩ := by
  have hwhole := whole?_toDigits n.natAbs
  by_cases hn : n < 0
  · rw [intChars, if_pos hn, decide_eq_true hn, List.singleton_append, Numeral.read?]
    simp [hwhole, Numeral.fraction?, Numeral.exponent?]
  · -- the first character is a digit and not a sign
    have hsign : ∀ cs, Nat.toDigits 10 n.natAbs ≠ '-' :: cs := by
      intro cs hcs
      have hdigit :=
        Nat.isDigit_of_mem_toDigits (b := 10) (n := n.natAbs) (c := '-') (by decide) (by decide)
        (by simp [hcs])
      cases hdigit
    rw [intChars, if_neg hn, decide_eq_false hn, List.nil_append, Numeral.read?]
    · simp [hwhole, Numeral.fraction?, Numeral.exponent?]
    · exact hsign

/-- An integer of 64 bits is read from its numeral. -/
theorem word?_intChars {n : Int} (h : Bounded (.int n)) :
    word? (intChars n) = some (.number (.int n)) := by
  have hname : ∀ c, c.isDigit = false → c ≠ '-' → c ∉ intChars n := by
    intro c hdigit hminus hc
    rw [intChars, List.mem_append] at hc
    rcases hc with hc | hc
    · split at hc
      · exact hminus (List.mem_singleton.mp hc)
      · cases hc
    · rw [Nat.isDigit_of_mem_toDigits (by decide) (by decide) hc] at hdigit
      cases hdigit
  have hnull : intChars n ≠ ['n', 'u', 'l', 'l'] :=
    fun he ↦ hname 'l' rfl (by decide) (by simp [he])
  have htrue : intChars n ≠ ['t', 'r', 'u', 'e'] :=
    fun he ↦ hname 'e' rfl (by decide) (by simp [he])
  have hfalse : intChars n ≠ ['f', 'a', 'l', 's', 'e'] :=
    fun he ↦ hname 'e' rfl (by decide) (by simp [he])
  have hnumber : Numeral.toNumber? ⟨decide (n < 0), Nat.toDigits 10 n.natAbs, none, none⟩ =
      some (.int n) := by
    obtain ⟨hlow, hhigh⟩ := h
    by_cases hn : n < 0
    · simp only [Numeral.toNumber?, valueOf_toDigits, decide_eq_true hn]
      have hpos : 0 < n.natAbs := by omega
      have hle : n.natAbs ≤ Nat.pow 2 63 := by omega
      simp only [Option.isNone_none, hpos, hle, decide_true, Bool.and_self, if_true]
      rw [show -(n.natAbs : Int) = n by omega]
    · simp only [Numeral.toNumber?, valueOf_toDigits, decide_eq_false hn]
      have hlt : n.natAbs < Numeral.limit := by
        rw [Numeral.limit]
        omega
      simp only [Option.isNone_none, hlt, decide_true, Bool.and_self]
      rw [show (n.natAbs : Int) = n by omega]
      rfl
  rw [word?, if_neg hnull, if_neg htrue, if_neg hfalse, read?_intChars, Option.map_some, hnumber]
  rfl

/-- Integers of 64 bits are read again. -/
theorem reread?_of_bounded {i : Int} (h : Bounded (.int i)) :
    reread? (.number (.int i)) = some (.number (.int i)) :=
  word?_intChars h

/-! ## Numerals of floating-point numbers -/

theorem exponent?_cons_ne_none (c : Char) (cs : List Char) :
    Numeral.exponent? (c :: cs) ≠ some none := by
  intro h
  unfold Numeral.exponent? at h
  simp only at h
  split at h
  · split at h
    · cases Option.some.inj h
    · cases h
  · cases h

/-- A numeral without point and exponent consists of digits. -/
theorem isDigit_of_parts {cs digits r r' : List Char}
    (hwhole : Numeral.whole? cs = some (digits, r))
    (hfraction : Numeral.fraction? r = some (none, r'))
    (hexponent : Numeral.exponent? r' = some none) :
    ∀ c ∈ cs, c.isDigit = true := by
  have hr : r = [] := by
    unfold Numeral.fraction? at hfraction
    split at hfraction
    · obtain ⟨_, -, h⟩ := Option.map_eq_some_iff.mp hfraction
      cases h
    · cases hfraction
      cases r with
      | nil => rfl
      | cons c r => exact absurd hexponent (exponent?_cons_ne_none c r)
  have hdigits : Numeral.digits? cs = some (digits, []) := by
    rw [hr] at hwhole
    unfold Numeral.whole? at hwhole
    split at hwhole
    · cases hwhole
    · exact hwhole
  have hdrop : cs.dropWhile Char.isDigit = [] := by
    unfold Numeral.digits? at hdigits
    simp only at hdigits
    split at hdigits
    · cases hdigits
    · exact congrArg Prod.snd (Option.some.inj hdigits)
  have hall : cs.takeWhile Char.isDigit ++ cs.dropWhile Char.isDigit = cs :=
    List.takeWhile_append_dropWhile
  rw [hdrop, List.append_nil] at hall
  rw [← hall]
  exact List.all_eq_true.mp List.all_takeWhile

theorem isDigit_of_read? {cs : List Char} {m : Numeral} (h : Numeral.read? cs = some m)
    (hfraction : m.fraction = none) (hexponent : m.exponent = none) :
    ∀ c ∈ cs, c = '-' ∨ c.isDigit = true := by
  unfold Numeral.read? at h
  split at h
  next negative front hsign =>
  obtain ⟨⟨whole, r⟩, hwhole, h⟩ := Option.bind_eq_some_iff.mp h
  obtain ⟨⟨fraction, r'⟩, hfraction', h⟩ := Option.bind_eq_some_iff.mp h
  obtain ⟨exponent, hexponent', h⟩ := Option.bind_eq_some_iff.mp h
  cases h
  cases hfraction
  cases hexponent
  have hdigits := isDigit_of_parts hwhole hfraction' hexponent'
  split at hsign
  · cases hsign
    exact List.forall_mem_cons.mpr ⟨.inl rfl, fun c hc ↦ .inr (hdigits c hc)⟩
  · cases hsign
    exact fun c hc ↦ .inr (hdigits c hc)

/-- A numeral with a point or an exponent stands for a floating-point number. -/
theorem exists_float_of_word? {word : List Char} {n : Number} (h : word? word = some (.number n))
    (hmark : '.' ∈ word ∨ 'e' ∈ word) : ∃ x, n = .float x := by
  unfold word? at h
  split at h
  · cases h
  split at h
  · cases h
  split at h
  · cases h
  · obtain ⟨m, hm, h⟩ := Option.map_eq_some_iff.mp h
    have hparts : ¬ (m.fraction = none ∧ m.exponent = none) := by
      rintro ⟨hfraction, hexponent⟩
      have hdigits := isDigit_of_read? hm hfraction hexponent
      rcases hmark with hmark | hmark
      · exact absurd (hdigits _ hmark) (by decide)
      · exact absurd (hdigits _ hmark) (by decide)
    have hnumber : m.toNumber? = m.toFloat?.map .float := by
      unfold Numeral.toNumber?
      refine if_neg ?_
      simp only [Bool.and_eq_true, Option.isNone_iff_eq_none]
      exact fun hint ↦ hparts hint.1
    rw [hnumber] at h
    cases hx : m.toFloat? with
    | none =>
      rw [hx] at h
      cases h
    | some x =>
      rw [hx] at h
      cases h
      exact ⟨x, rfl⟩

/-- What is written for a floating-point number is never read as an integer. -/
theorem exists_float_of_reread? {x : Float} {n : Number}
    (h : reread? (.number (.float x)) = some (.number n)) : ∃ y, n = .float y := by
  rw [reread?, numberChars] at h
  split at h
  · rcases mark_mem_writeFloat x with ⟨name, hname, heq⟩ | hmark
    · have hnone : ∀ name ∈ ["NaN", "inf", "-inf"], (word? name.toList).isNone = true := by
        decide
      rw [heq, Option.isNone_iff_eq_none.mp (hnone name hname)] at h
      cases h
    · exact exists_float_of_word? h hmark
  · cases h

end AgentConsole.Json
