import AgentConsole.Json.Printer
import AgentConsole.Json.Reader
import AgentConsole.Proofs.Json.Normal
import AgentConsole.Proofs.Lists

/-!
# Reading what has been written

The reader goes through a text in two passes: the first one cuts it into tokens, the second one puts
the tokens together with a stack of open containers.  Both have to be taken back for a printed
value.  The tokens of a value (`Json.tokens`) stand between: printing a value writes its tokens, and
what the second pass makes of the tokens of a value is the value.

Not every value comes back as it was.  A number is read from its numeral, and what the numeral
stands for is a matter of arithmetic that does not concern the structure of texts.  So the law is
about all values: what is read is the value with every number replaced by what its numeral is read
as (`Json.reread?`).

* `Json.parseFrom_tokens` : the second pass, for any value and in any context.
* `Json.tokensFrom_chars` : the first pass.
* `Json.read?_chars` : reading a printed value.
* `Json.visible_of_mem_chars` : a printed value stands on one line.
-/

namespace AgentConsole

namespace Json

/-! ## Tokens of values -/

mutual

/-- The tokens of a value. -/
def tokens : Json → List Token
  | .string s => [.string (some s)]
  | .array [] => [.openArray, .closeArray]
  | .array (j :: rest) => .openArray :: (tokens j ++ itemTokens rest)
  | .object [] => [.openObject, .closeObject]
  | .object ((key, j) :: rest) =>
    .openObject :: .string (some key) :: .colon :: (tokens j ++ memberTokens rest)
  | .null => [.leaf .null]
  | .bool b => [.leaf (.bool b)]
  | .number n => [.leaf (.number n)]
  | .void => [.leaf .void]

/-- The tokens of the items after the first, and of the end of their array. -/
def itemTokens : List Json → List Token
  | [] => [.closeArray]
  | j :: rest => .comma :: (tokens j ++ itemTokens rest)

/-- The tokens of the members after the first, and of the end of their object. -/
def memberTokens : Members → List Token
  | [] => [.closeObject]
  | (key, j) :: rest => .comma :: .string (some key) :: .colon :: (tokens j ++ memberTokens rest)

end

/-! ## From tokens to values -/

theorem parseFrom_cons (e : Expectation) (t : Token) (ts : List Token) :
    parseFrom e (t :: ts) = (stepToken e t).bind fun e ↦ parseFrom e ts := by
  cases e with
  | rest v stack => cases stack <;> rfl
  | _ => rfl

/-- Members all of whose keys denote something. -/
theorem ofMembers_map (members : Members) :
    ofMembers (members.map fun m ↦ (some m.1, m.2)) = .object members := by
  have h : (members.map fun m ↦ (some m.1, m.2)).mapM
      (fun m : Option String × Json ↦ m.1.map fun key ↦ (key, m.2)) = some members := by
    rw [List.mapM_map, mapM_eq_some_self_iff]
    exact fun _ _ ↦ rfl
  rw [ofMembers, h]

/-- Where an array may also end, its first item is read as any other value. -/
theorem parseFrom_firstItem (j : Json) (stack : List Frame) (ts : List Token) :
    parseFrom (.firstItem stack) (tokens j ++ ts) =
      parseFrom (.value (.array [] :: stack)) (tokens j ++ ts) := by
  cases j with
  | array items => cases items <;> rfl
  | object members => cases members <;> rfl
  | _ => rfl

/-- The tokens of a value are read as the value, whatever containers are open. -/
theorem parseFrom_tokens (j : Json) (stack : List Frame) (ts : List Token) :
    parseFrom (.value stack) (tokens j ++ ts) = parseFrom (.rest j stack) ts := by
  induction j using Json.induction generalizing stack ts with
  | null | bool | number | string | void => rfl
  | array items ih =>
    have hitems : ∀ (rest : List Json), (∀ j ∈ rest, j ∈ items) → ∀ v before,
        parseFrom (.rest v (.array before :: stack)) (itemTokens rest ++ ts) =
          parseFrom (.rest (.array ((v :: before).reverse ++ rest)) stack) ts := by
      intro rest hrest
      induction rest with
      | nil =>
        intro v before
        rw [List.append_nil]
        rfl
      | cons j rest ihrest =>
        intro v before
        have hstep : parseFrom (.rest v (.array before :: stack)) (itemTokens (j :: rest) ++ ts) =
            parseFrom (.value (.array (v :: before) :: stack))
              (tokens j ++ (itemTokens rest ++ ts)) := by
          rw [itemTokens, List.cons_append, parseFrom_cons, List.append_assoc]
          rfl
        rw [hstep, ih j (hrest j (by simp)), ihrest (fun i hi ↦ hrest i (by simp [hi]))]
        simp
    cases items with
    | nil => rfl
    | cons j rest =>
      rw [tokens, List.cons_append, parseFrom_cons, List.append_assoc]
      change parseFrom (.firstItem stack) _ = _
      rw [parseFrom_firstItem, ih j (by simp), hitems rest (fun i hi ↦ by simp [hi])]
      rfl
  | object members ih =>
    have hmembers :
        ∀ (rest : Members), (∀ m ∈ rest, m ∈ members) → ∀ v key (before : Members),
        parseFrom (.rest v (.object (before.map fun m ↦ (some m.1, m.2)) (some key) :: stack))
            (memberTokens rest ++ ts) =
          parseFrom (.rest (.object (((key, v) :: before).reverse ++ rest)) stack) ts := by
      intro rest hrest
      induction rest with
      | nil =>
        intro v key before
        rw [memberTokens, List.cons_append, parseFrom_cons, List.append_nil, ← ofMembers_map]
        simp [stepToken]
      | cons m rest ihrest =>
        intro v key before
        obtain ⟨key', j⟩ := m
        have hstep :
            parseFrom (.rest v (.object (before.map fun m ↦ (some m.1, m.2)) (some key) :: stack))
                (memberTokens ((key', j) :: rest) ++ ts) =
              parseFrom
                (.value (.object (((key, v) :: before).map fun m ↦ (some m.1, m.2))
                  (some key') :: stack))
                (tokens j ++ (memberTokens rest ++ ts)) := by
          rw [memberTokens, List.cons_append, List.cons_append, List.cons_append, parseFrom_cons,
            List.append_assoc]
          rfl
        rw [hstep, ih (key', j) (hrest _ (by simp)), ihrest (fun i hi ↦ hrest i (by simp [hi]))]
        simp
    cases members with
    | nil => rfl
    | cons m rest =>
      obtain ⟨key, j⟩ := m
      have hstep : parseFrom (.value stack) (tokens (.object ((key, j) :: rest)) ++ ts) =
          parseFrom
            (.value (.object (([] : Members).map fun m ↦ (some m.1, m.2)) (some key) :: stack))
            (tokens j ++ (memberTokens rest ++ ts)) := by
        rw [tokens, List.cons_append, List.cons_append, List.cons_append, parseFrom_cons,
          List.append_assoc]
        rfl
      rw [hstep, ih (key, j) (by simp), hmembers rest (fun i hi ↦ by simp [hi])]
      rfl

/-! ## From texts to tokens -/

/-- Where a word cannot go on. -/
def EndsWord (rest : List Char) : Prop :=
  ∀ c ∈ rest.head?, isWordChar c = false

theorem endsWord_nil : EndsWord [] := nofun

theorem endsWord_cons {c : Char} (h : isWordChar c = false) (rest : List Char) :
    EndsWord (c :: rest) := by
  intro c' hc
  cases hc
  exact h

/-- Between tokens, the first character of a word begins it. -/
theorem stepBetween_of_isWordChar {c : Char} (h : isWordChar c = true) (acc : List Token) :
    stepBetween acc c = some (.word [c], acc) := by
  have hblank : isBlank c = false := by
    rw [← Bool.not_eq_true]
    intro hb
    simp only [isBlank, Bool.or_eq_true, beq_iff_eq] at hb
    rcases hb with ((rfl | rfl) | rfl) | rfl <;> revert h <;> decide
  have hquote : ¬ c = '"' := by
    rintro rfl
    revert h
    decide
  simp [stepBetween, hblank, hquote, h]

theorem tokensFrom_of_word {word : List Char} (h : ∀ c ∈ word, isWordChar c = true)
    (before : List Char) (acc : List Token) {rest : List Char} (hrest : EndsWord rest) :
    tokensFrom (.word before) acc (word ++ rest) =
      (word? (before.reverse ++ word)).bind fun j ↦
        tokensFrom .between (.leaf j :: acc) rest := by
  induction word generalizing before with
  | nil =>
    rw [List.nil_append, List.append_nil]
    cases rest with
    | nil => cases hj : word? before.reverse <;> simp [tokensFrom, hj]
    | cons c rest =>
      have hc : isWordChar c = false := hrest c rfl
      cases hj : word? before.reverse <;> simp [tokensFrom, stepChar, hc, hj]
  | cons c word ih =>
    have hc : isWordChar c = true := h c (by simp)
    rw [List.cons_append, tokensFrom, stepChar, if_pos hc, Option.bind_some,
      ih (fun c' hc' ↦ h c' (by simp [hc']))]
    simp

/-- A word is read as what it stands for. -/
theorem tokensFrom_word {word : List Char} (hne : word ≠ [])
    (h : ∀ c ∈ word, isWordChar c = true) (acc : List Token) {rest : List Char}
    (hrest : EndsWord rest) :
    tokensFrom .between acc (word ++ rest) =
      (word? word).bind fun j ↦ tokensFrom .between (.leaf j :: acc) rest := by
  cases word with
  | nil => exact absurd rfl hne
  | cons c word =>
    rw [List.cons_append, tokensFrom, stepChar, stepBetween_of_isWordChar (h c (by simp)),
      Option.bind_some, tokensFrom_of_word (fun c' hc' ↦ h c' (by simp [hc'])) _ _ hrest]
    rfl

theorem hexValue?_hexDigit : ∀ n < 16, hexValue? (hexDigit n) = some n := by decide

/-- A character in a string, escaped or not, is read as itself. -/
theorem tokensFrom_escape (c : Char) (before : List Char) (acc : List Token) (rest : List Char) :
    tokensFrom (.inString ⟨before, none, false⟩) acc (escape c ++ rest) =
      tokensFrom (.inString ⟨c :: before, none, false⟩) acc rest := by
  unfold escape
  split
  case h_8 hquote hbackslash _ _ _ _ _ =>
    split
    case isTrue hc =>
      have hhigh := hexValue?_hexDigit (c.toNat / 16) (by omega)
      have hlow := hexValue?_hexDigit (c.toNat % 16) (by omega)
      have hzero : hexValue? '0' = some 0 := by decide
      have hvalue : 16 * (c.toNat / 16) + c.toNat % 16 = c.toNat := Nat.div_add_mod ..
      have hunit :
          (⟨before, none, false⟩ : Content).pushUnit c.toNat =
            ⟨c :: before, none, false⟩ := by
        have h₁ : ¬ (0xD800 ≤ c.toNat) := by omega
        have h₂ : ¬ (0xDC00 ≤ c.toNat) := by omega
        simp [Content.pushUnit, Content.push, h₁, h₂]
      simp [tokensFrom, stepChar, hhigh, hlow, hzero, hvalue, hunit]
    case isFalse hc =>
      rw [List.singleton_append, tokensFrom, stepChar, if_neg hquote, if_neg hbackslash, if_neg hc]
      rfl
  all_goals rfl

/-- A string in quotes is read as one token. -/
theorem tokensFrom_quote (s : String) (acc : List Token) (rest : List Char) :
    tokensFrom .between acc (quote s ++ rest) =
      tokensFrom .between (.string (some s) :: acc) rest := by
  have hchars : ∀ (cs before : List Char),
      tokensFrom (.inString ⟨before, none, false⟩) acc (cs.flatMap escape ++ '"' :: rest) =
        tokensFrom .between
          (.string (some (String.ofList (before.reverse ++ cs))) :: acc) rest := by
    intro cs
    induction cs with
    | nil =>
      intro before
      rw [List.append_nil]
      rfl
    | cons c cs ih =>
      intro before
      rw [List.flatMap_cons, List.append_assoc, tokensFrom_escape, ih, List.reverse_cons,
        List.append_assoc, List.singleton_append]
  rw [quote, List.cons_append, List.append_assoc, List.singleton_append]
  change tokensFrom (.inString .empty) acc _ = _
  rw [Content.empty, hchars, List.reverse_nil, List.nil_append, String.ofList_toList]

/-! ## Numerals are words -/

/-- Whether a text consists of characters of words. -/
def IsWord (s : String) : Prop :=
  ∀ c ∈ s.toList, isWordChar c = true

instance (s : String) : Decidable (IsWord s) :=
  decidable_of_iff (s.toList.all isWordChar = true) List.all_eq_true

theorem isWord_ofList {cs : List Char} (h : ∀ c ∈ cs, isWordChar c = true) :
    IsWord (String.ofList cs) := by
  rw [IsWord, String.toList_ofList]
  exact h

theorem IsWord.append {s t : String} (hs : IsWord s) (ht : IsWord t) : IsWord (s ++ t) := by
  intro c hc
  rw [String.toList_append, List.mem_append] at hc
  exact hc.elim (hs c) (ht c)

theorem isWordChar_of_isDigit {c : Char} (h : c.isDigit = true) : isWordChar c = true := by
  simp [isWordChar, Char.isAlphanum, h]

theorem isWordChar_of_mem_toDigits {n : Nat} {c : Char} (h : c ∈ Nat.toDigits 10 n) :
    isWordChar c = true :=
  isWordChar_of_isDigit (Nat.isDigit_of_mem_toDigits (by decide) (by decide) h)

theorem isWordChar_of_mem_digits {tie : Tie} {bits : Nat} {c : Char}
    (h : c ∈ (Digits.ofBits tie bits).digits) : isWordChar c = true := by
  have hall : ∀ coeff exp, ∀ c ∈ (Digits.ofScaled coeff exp).digits, isWordChar c = true := by
    intro coeff exp c hc
    rw [Digits.ofScaled, List.mem_reverse] at hc
    exact isWordChar_of_mem_toDigits (List.mem_reverse.mp ((List.dropWhile_suffix _).subset hc))
  rw [Digits.ofBits] at h
  exact hall _ _ c h

theorem isWord_write {l : DecimalLayout} (hl : IsWord l.whole) {d : Digits}
    (h : ∀ c ∈ d.digits, isWordChar c = true) : IsWord (l.write d) := by
  have hzeros : ∀ n, ∀ c ∈ List.replicate n '0', isWordChar c = true := by
    intro n c hc
    rw [List.eq_of_mem_replicate hc]
    decide
  rw [DecimalLayout.write]
  split
  · rw [DecimalLayout.positional]
    split
    · refine .append (by decide) (isWord_ofList ?_)
      intro c hc
      exact (List.mem_append.mp hc).elim (hzeros _ c) (h c)
    · dsimp only
      split
      · refine .append (isWord_ofList ?_) hl
        intro c hc
        exact (List.mem_append.mp hc).elim (h c) (hzeros _ c)
      · refine .append (.append (isWord_ofList ?_) (by decide)) (isWord_ofList ?_)
        · exact fun c hc ↦ h c (List.mem_of_mem_take hc)
        · exact fun c hc ↦ h c (List.mem_of_mem_drop hc)
  · rw [DecimalLayout.scientific]
    refine .append (.append (.append (.append (isWord_ofList ?_) ?_) (by decide)) ?_)
      (isWord_ofList ?_)
    · exact fun c hc ↦ h c (List.mem_of_mem_take hc)
    · split
      · decide
      · exact .append (by decide) (isWord_ofList fun c hc ↦ h c (List.mem_of_mem_drop hc))
    · split <;> decide
    · exact fun c hc ↦ isWordChar_of_mem_toDigits hc

theorem isWord_writeFloat {l : DecimalLayout} (hl : IsWord l.whole) (x : Float) :
    IsWord (writeFloat l x) := by
  rw [writeFloat]
  split
  · decide
  · dsimp only
    refine .append ?_ ?_
    · split <;> decide
    · split
      · decide
      split
      · exact .append (by decide) hl
      · exact isWord_write hl fun c ↦ isWordChar_of_mem_digits

theorem isWordChar_of_mem_numberChars {n : Number} {c : Char} (h : c ∈ numberChars n) :
    isWordChar c = true := by
  cases n with
  | int n =>
    rw [numberChars, intChars, List.mem_append] at h
    rcases h with h | h
    · split at h
      · rw [List.mem_singleton.mp h]
        decide
      · cases h
    · exact isWordChar_of_mem_toDigits h
  | float x =>
    rw [numberChars] at h
    split at h
    · exact isWord_writeFloat (by decide) x c h
    · exact List.all_eq_true.mp rfl c h

/-- There is a point in every positional decimal, and an `e` in every other one. -/
theorem mark_mem_write (d : Digits) :
    '.' ∈ (DecimalLayout.data.write d).toList ∨
      'e' ∈ (DecimalLayout.data.write d).toList := by
  rw [DecimalLayout.write]
  split
  · left
    rw [DecimalLayout.positional]
    split
    · simp
    · dsimp only
      split <;> simp [DecimalLayout.data]
  · right
    simp [DecimalLayout.scientific]

/-- The text of a floating-point number has a mark that no integer has, unless it is a name. -/
theorem mark_mem_writeFloat (x : Float) :
    (∃ name ∈ ["NaN", "inf", "-inf"], writeFloat .data x = name) ∨
      '.' ∈ (writeFloat .data x).toList ∨ 'e' ∈ (writeFloat .data x).toList := by
  rw [writeFloat]
  by_cases hnan : x.isNaN
  · rw [if_pos hnan]
    exact .inl ⟨"NaN", by simp, rfl⟩
  rw [if_neg hnan]
  dsimp only
  by_cases hinf : x.isInf
  · left
    rw [if_pos hinf]
    split
    · exact ⟨"-inf", by simp, rfl⟩
    · exact ⟨"inf", by simp, rfl⟩
  right
  rw [if_neg hinf, String.toList_append, List.mem_append, List.mem_append]
  by_cases hzero : x.toBits.toNat % Nat.pow 2 63 = 0
  · rw [if_pos hzero]
    exact .inl (.inr (by decide))
  · rw [if_neg hzero]
    rcases mark_mem_write (Digits.ofBits .even (x.toBits.toNat % Nat.pow 2 63)) with hmark | hmark
    · exact .inl (.inr hmark)
    · exact .inr (.inr hmark)

theorem numberChars_ne_nil (n : Number) : numberChars n ≠ [] := by
  cases n with
  | int n => simp [numberChars, intChars, Nat.toDigits_ne_nil]
  | float x =>
    rw [numberChars]
    split
    · rcases mark_mem_writeFloat x with ⟨name, hname, heq⟩ | hmark | hmark
      · have hne : ∀ name ∈ ["NaN", "inf", "-inf"], name.toList ≠ [] := by decide
        rw [heq]
        exact hne name hname
      · exact List.ne_nil_of_mem hmark
      · exact List.ne_nil_of_mem hmark
    · decide

/-! ## From texts to values -/

mutual

/-- What is read of a printed value: each number as its numeral is read, and what is nothing as
`null`. -/
def reread? : Json → Option Json
  | .null => some .null
  | .bool b => some (.bool b)
  | .number n => word? (numberChars n)
  | .string s => some (.string s)
  | .array items => (rereadItems? items).map .array
  | .object members => (rereadMembers? members).map .object
  | .void => some .null

/-- What is read of some items. -/
def rereadItems? : List Json → Option (List Json)
  | [] => some []
  | j :: rest => (reread? j).bind fun j ↦ (rereadItems? rest).map (j :: ·)

/-- What is read of some members. -/
def rereadMembers? : Members → Option Members
  | [] => some []
  | (key, j) :: rest => (reread? j).bind fun j ↦ (rereadMembers? rest).map ((key, j) :: ·)

end

/-- A word stands for a value of a single token. -/
theorem tokens_of_word? {word : List Char} {j : Json} (h : word? word = some j) :
    tokens j = [.leaf j] := by
  unfold word? at h
  split at h
  · cases h
    rfl
  split at h
  · cases h
    rfl
  split at h
  · cases h
    rfl
  · obtain ⟨n, -, rfl⟩ := Option.map_eq_some_iff.mp h
    cases n.toNumber? <;> rfl

/-- A printed value becomes the tokens of what it is read as. -/
def Scans (j : Json) : Prop :=
  ∀ (acc : List Token) (rest : List Char), EndsWord rest →
    tokensFrom .between acc (chars j ++ rest) =
      (reread? j).bind fun j ↦ tokensFrom .between ((tokens j).reverse ++ acc) rest

theorem endsWord_itemChars (items : List Json) (rest : List Char) :
    EndsWord (itemChars items ++ rest) := by
  cases items <;> exact endsWord_cons (by decide) _

theorem endsWord_memberChars (members : Members) (rest : List Char) :
    EndsWord (memberChars members ++ rest) := by
  cases members <;> exact endsWord_cons (by decide) _

theorem tokensFrom_itemChars {items : List Json} (h : ∀ j ∈ items, Scans j) (acc : List Token)
    (rest : List Char) :
    tokensFrom .between acc (itemChars items ++ rest) =
      (rereadItems? items).bind fun js ↦
        tokensFrom .between ((itemTokens js).reverse ++ acc) rest := by
  induction items generalizing acc with
  | nil => rfl
  | cons j items ih =>
    rw [itemChars, List.cons_append, List.append_assoc]
    change tokensFrom .between (.comma :: acc) _ = _
    rw [h j (by simp) _ _ (endsWord_itemChars items rest), rereadItems?, Option.bind_assoc]
    congr 1
    funext j'
    rw [ih (fun i hi ↦ h i (by simp [hi])), Option.bind_map]
    congr 1
    funext js
    simp [itemTokens]

theorem tokensFrom_memberChars {members : Members} (h : ∀ m ∈ members, Scans m.2)
    (acc : List Token) (rest : List Char) :
    tokensFrom .between acc (memberChars members ++ rest) =
      (rereadMembers? members).bind fun ms ↦
        tokensFrom .between ((memberTokens ms).reverse ++ acc) rest := by
  induction members generalizing acc with
  | nil => rfl
  | cons m members ih =>
    obtain ⟨key, j⟩ := m
    rw [memberChars, List.cons_append, List.append_assoc, List.cons_append, List.append_assoc]
    change tokensFrom .between (.comma :: acc) _ = _
    rw [tokensFrom_quote]
    change tokensFrom .between (.colon :: .string (some key) :: .comma :: acc) _ = _
    rw [h (key, j) (by simp) _ _ (endsWord_memberChars members rest), rereadMembers?,
      Option.bind_assoc]
    congr 1
    funext j'
    rw [ih (fun i hi ↦ h i (by simp [hi])), Option.bind_map]
    congr 1
    funext ms
    simp [memberTokens]

theorem tokensFrom_chars (j : Json) : Scans j := by
  induction j using Json.induction with
  | null | void =>
    intro acc rest hrest
    rw [chars, tokensFrom_word (by decide) (List.all_eq_true.mp rfl) acc hrest]
    rfl
  | bool b =>
    intro acc rest hrest
    cases b with
    | true | false =>
      rw [chars, tokensFrom_word (by decide) (List.all_eq_true.mp rfl) acc hrest]
      rfl
  | number n =>
    intro acc rest hrest
    rw [chars,
      tokensFrom_word (numberChars_ne_nil n) (fun _ ↦ isWordChar_of_mem_numberChars) acc hrest,
      reread?]
    cases hj : word? (numberChars n) with
    | none => rfl
    | some j => simp [tokens_of_word? hj]
  | string s =>
    intro acc rest _
    rw [chars, tokensFrom_quote]
    rfl
  | array items ih =>
    intro acc rest _
    cases items with
    | nil => rfl
    | cons j items =>
      rw [chars, List.cons_append, List.append_assoc]
      change tokensFrom .between (.openArray :: acc) _ = _
      rw [ih j (by simp) _ _ (endsWord_itemChars items rest), reread?, rereadItems?,
        Option.map_bind, Option.bind_assoc]
      congr 1
      funext j'
      rw [tokensFrom_itemChars (fun i hi ↦ ih i (by simp [hi])), Function.comp_apply,
        Option.map_map, Option.bind_map]
      congr 1
      funext js
      simp [tokens]
  | object members ih =>
    intro acc rest _
    cases members with
    | nil => rfl
    | cons m members =>
      obtain ⟨key, j⟩ := m
      rw [chars, List.cons_append, List.append_assoc, List.cons_append, List.append_assoc]
      change tokensFrom .between (.openObject :: acc) _ = _
      rw [tokensFrom_quote]
      change tokensFrom .between (.colon :: .string (some key) :: .openObject :: acc) _ = _
      rw [ih (key, j) (by simp) _ _ (endsWord_memberChars members rest), reread?, rereadMembers?,
        Option.map_bind, Option.bind_assoc]
      congr 1
      funext j'
      rw [tokensFrom_memberChars (fun i hi ↦ ih i (by simp [hi])), Function.comp_apply,
        Option.map_map, Option.bind_map]
      congr 1
      funext ms
      simp [tokens]

/-- What a printed value is read as. -/
theorem read?_chars (j : Json) : read? (chars j) = reread? j := by
  have h := tokensFrom_chars j [] [] endsWord_nil
  rw [List.append_nil] at h
  rw [read?, tokens?, h, Option.bind_assoc]
  cases reread? j with
  | none => rfl
  | some j =>
    have hparse := parseFrom_tokens j [] []
    rw [List.append_nil] at hparse
    simp [tokensFrom, hparse, parseFrom]

/-- What a value's text is read as. -/
theorem parse?_text (j : Json) : parse? j.text = reread? j := by
  rw [parse?, text, String.toList_ofList, read?_chars]

/-! ## Printed values on one line -/

/-- A character that may stand inside a line; line feed and carriage return are no such
characters. -/
def Visible (c : Char) : Prop :=
  0x20 ≤ c.toNat

instance (c : Char) : Decidable (Visible c) :=
  inferInstanceAs (Decidable (0x20 ≤ c.toNat))

theorem visible_of_all {cs : List Char} (h : cs.all (fun c ↦ decide (Visible c)) = true) :
    ∀ c ∈ cs, Visible c := by
  simpa using h

theorem visible_of_isWordChar {c : Char} (h : isWordChar c = true) : Visible c := by
  have hlow : ∀ n < 0x20, isWordChar (Char.ofNat n) = false := by decide
  refine Nat.not_lt.mp fun hc ↦ ?_
  rw [← Char.ofNat_toNat c, hlow c.toNat hc] at h
  cases h

theorem visible_hexDigit : ∀ n < 16, Visible (hexDigit n) := by decide

theorem visible_of_mem_escape {c c' : Char} (h : c' ∈ escape c) : Visible c' := by
  have hplain : ∀ l : List Char, (∀ c ∈ l, Visible c) → c' ∈ l → Visible c' :=
    fun l hl hc ↦ hl c' hc
  unfold escape at h
  split at h
  case h_8 =>
    split at h
    · have hhigh := visible_hexDigit (c.toNat / 16) (by omega)
      have hlow := visible_hexDigit (c.toNat % 16) (by omega)
      refine hplain _ ?_ h
      simp only [List.forall_mem_cons]
      exact ⟨by decide, by decide, by decide, by decide, hhigh, hlow, nofun⟩
    · next hc =>
      rw [List.mem_singleton.mp h]
      exact Nat.not_lt.mp hc
  all_goals exact hplain _ (visible_of_all rfl) h

theorem visible_of_mem_quote {s : String} {c : Char} (h : c ∈ quote s) : Visible c := by
  rw [quote, List.mem_cons, List.mem_append, List.mem_singleton, List.mem_flatMap] at h
  rcases h with rfl | ⟨c', -, h⟩ | rfl
  · decide
  · exact visible_of_mem_escape h
  · decide

/-- A printed value holds no control character, whatever texts are in it. -/
theorem visible_of_mem_chars (j : Json) : ∀ c ∈ chars j, Visible c := by
  induction j using Json.induction with
  | null | void => exact visible_of_all rfl
  | bool b => cases b <;> exact visible_of_all rfl
  | number n => exact fun c hc ↦ visible_of_isWordChar (isWordChar_of_mem_numberChars hc)
  | string s => exact fun c ↦ visible_of_mem_quote
  | array items ih =>
    have hrest :
        ∀ rest : List Json, (∀ j ∈ rest, j ∈ items) →
          ∀ c ∈ itemChars rest, Visible c := by
      intro rest hsub
      induction rest with
      | nil => exact visible_of_all rfl
      | cons j rest ihrest =>
        rw [itemChars, List.forall_mem_cons, List.forall_mem_append]
        exact ⟨by decide, ih j (hsub j (by simp)), ihrest fun i hi ↦ hsub i (by simp [hi])⟩
    cases items with
    | nil => exact visible_of_all rfl
    | cons j rest =>
      rw [chars, List.forall_mem_cons, List.forall_mem_append]
      exact ⟨by decide, ih j (by simp), hrest rest fun i hi ↦ by simp [hi]⟩
  | object members ih =>
    have hrest :
        ∀ rest : Members, (∀ m ∈ rest, m ∈ members) →
          ∀ c ∈ memberChars rest, Visible c := by
      intro rest hsub
      induction rest with
      | nil => exact visible_of_all rfl
      | cons m rest ihrest =>
        obtain ⟨key, j⟩ := m
        rw [memberChars, List.forall_mem_cons, List.forall_mem_append, List.forall_mem_cons,
          List.forall_mem_append]
        exact ⟨by decide, fun c ↦ visible_of_mem_quote, by decide,
          ih (key, j) (hsub _ (by simp)), ihrest fun i hi ↦ hsub i (by simp [hi])⟩
    cases members with
    | nil => exact visible_of_all rfl
    | cons m rest =>
      obtain ⟨key, j⟩ := m
      rw [chars, List.forall_mem_cons, List.forall_mem_append, List.forall_mem_cons,
        List.forall_mem_append]
      exact ⟨by decide, fun c ↦ visible_of_mem_quote, by decide, ih (key, j) (by simp),
        hrest rest fun i hi ↦ by simp [hi]⟩

theorem exists_memberChars (members : Members) : ∃ cs, memberChars members = cs ++ ['}'] := by
  induction members with
  | nil => exact ⟨[], rfl⟩
  | cons m rest ih =>
    obtain ⟨key, j⟩ := m
    obtain ⟨cs, hcs⟩ := ih
    refine ⟨',' :: (quote key ++ ':' :: (chars j ++ cs)), ?_⟩
    rw [memberChars, hcs]
    simp

/-- An object is printed between braces. -/
theorem exists_chars_object (members : Members) :
    ∃ cs, chars (.object members) = '{' :: (cs ++ ['}']) := by
  cases members with
  | nil => exact ⟨[], rfl⟩
  | cons m rest =>
    obtain ⟨key, j⟩ := m
    obtain ⟨cs, hcs⟩ := exists_memberChars rest
    refine ⟨quote key ++ ':' :: (chars j ++ cs), ?_⟩
    rw [chars, hcs]
    simp

end Json

end AgentConsole
