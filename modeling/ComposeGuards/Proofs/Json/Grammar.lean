import ComposeGuards.Json.Skip

/-! # The grammar of JSON texts

Between brackets a text is a sequence of elements, and what leads to an element is blanks if it is
the first there, and a comma among blanks if it is not; so no comma stands right before a closing
bracket. A string may be spelled with escapes, and its text is what these stand for; `\u` escapes of
surrogates stand for something only in pairs.
-/
namespace ComposeGuards.Json

/-- Nothing but blanks. -/
def Gap (cs : List Char) : Prop :=
  ∀ c ∈ cs, isBlank c = true

instance (cs : List Char) : Decidable (Gap cs) :=
  decidable_of_iff (cs.all isBlank = true) List.all_eq_true

/-- A string from behind its opening quote to its closing quote. -/
inductive IsText : List Char → Prop
  | quote : IsText ['"']
  | char {c : Char} {cs : List Char} (other : c ≠ '"') (plain : c ≠ '\\') (visible : ' ' ≤ c)
      (next : IsText cs) : IsText (c :: cs)
  | short {e : Char} {cs : List Char} (escape : (unescape? e).isSome = true)
      (next : IsText cs) : IsText ('\\' :: e :: cs)
  | unit {a b c d : Char} {cs : List Char} (digits : (hexQuad? a b c d).isSome = true)
      (next : IsText cs) : IsText ('\\' :: 'u' :: a :: b :: c :: d :: cs)

/-- A string from behind its opening quote to its closing quote, and the text it stands for. -/
inductive SpellsText : List Char → List Char → Prop
  | quote : SpellsText ['"'] []
  | char {c : Char} {cs text : List Char} (other : c ≠ '"') (plain : c ≠ '\\')
      (visible : ' ' ≤ c) (next : SpellsText cs text) : SpellsText (c :: cs) (c :: text)
  | short {e c : Char} {cs text : List Char} (escape : unescape? e = some c)
      (next : SpellsText cs text) : SpellsText ('\\' :: e :: cs) (c :: text)
  | unit {a b c d : Char} {n : Nat} {cs text : List Char} (digits : hexQuad? a b c d = some n)
      (low : isLowSurrogate n = false) (high : isHighSurrogate n = false)
      (next : SpellsText cs text) :
      SpellsText ('\\' :: 'u' :: a :: b :: c :: d :: cs) (Char.ofNat n :: text)
  | pair {a b c d e f g h : Char} {n m : Nat} {cs text : List Char}
      (digits : hexQuad? a b c d = some n) (digits' : hexQuad? e f g h = some m)
      (high : isHighSurrogate n = true) (low : isLowSurrogate m = true)
      (next : SpellsText cs text) :
      SpellsText ('\\' :: 'u' :: a :: b :: c :: d :: '\\' :: 'u' :: e :: f :: g :: h :: cs)
        (pairedChar n m :: text)

/-- One digit or more. -/
def IsDigits (cs : List Char) : Prop :=
  cs ≠ [] ∧ ∀ c ∈ cs, c.isDigit = true

instance (cs : List Char) : Decidable (IsDigits cs) :=
  decidable_of_iff (cs ≠ [] ∧ cs.all Char.isDigit = true) (by simp [IsDigits])

inductive IsInteger : List Char → Prop
  | zero : IsInteger ['0']
  | digits {c : Char} {cs : List Char} (noZero : c ≠ '0') (digits : IsDigits (c :: cs)) :
      IsInteger (c :: cs)

inductive IsFraction : List Char → Prop
  | none : IsFraction []
  | point {ds : List Char} (digits : IsDigits ds) : IsFraction ('.' :: ds)

inductive IsExponent : List Char → Prop
  | none : IsExponent []
  | scale {e : Char} {sign ds : List Char} (mark : e = 'e' ∨ e = 'E')
      (signed : sign = [] ∨ sign = ['+'] ∨ sign = ['-']) (digits : IsDigits ds) :
      IsExponent (e :: (sign ++ ds))

/-- A number without its sign. -/
inductive IsMagnitude : List Char → Prop
  | parts {i f e : List Char} (integer : IsInteger i) (fraction : IsFraction f)
      (exponent : IsExponent e) : IsMagnitude (i ++ (f ++ e))

/-- A value without parts. -/
inductive IsScalar : List Char → Prop
  | null : IsScalar "null".toList
  | boolean (b : Bool) : IsScalar (toString b).toList
  | number {cs : List Char} (magnitude : IsMagnitude cs) : IsScalar cs
  | minus {cs : List Char} (magnitude : IsMagnitude cs) : IsScalar ('-' :: cs)
  | text {cs : List Char} (text : IsText cs) : IsScalar ('"' :: cs)

/-- What leads to an element: blanks, and a comma among them if another element stands before. -/
inductive Leads : Bool → List Char → Prop
  | first {ws : List Char} (gap : Gap ws) : Leads true ws
  | comma {ws ws' : List Char} (gap : Gap ws) (gap' : Gap ws') : Leads false (ws ++ ',' :: ws')

def Bracket.opening : Bracket → Char
  | array => '['
  | object => '\x7b'

/-- A part of a text: a value, or elements between brackets, the first of them if none stands
before. -/
inductive Part
  | value
  | elements (b : Bracket) (isFirst : Bool)

inductive IsJson : Part → List Char → Prop
  | scalar {v : List Char} (scalar : IsScalar v) : IsJson .value v
  | nested {b : Bracket} {cs ws : List Char} (elements : IsJson (.elements b true) cs)
      (gap : Gap ws) : IsJson .value (b.opening :: (cs ++ (ws ++ [b.closing])))
  | done {b : Bracket} {isFirst : Bool} : IsJson (.elements b isFirst) []
  | item {isFirst : Bool} {lead v cs : List Char} (leads : Leads isFirst lead)
      (value : IsJson .value v) (next : IsJson (.elements .array false) cs) :
      IsJson (.elements .array isFirst) (lead ++ (v ++ cs))
  | member {isFirst : Bool} {lead ks ws ws' v cs : List Char} (leads : Leads isFirst lead)
      (key : IsText ks) (gap : Gap ws) (gap' : Gap ws') (value : IsJson .value v)
      (next : IsJson (.elements .object false) cs) :
      IsJson (.elements .object isFirst)
        (lead ++ '"' :: (ks ++ (ws ++ ':' :: (ws' ++ (v ++ cs)))))

/-- Members of an object, each with the text of its key and the spelling of its value. -/
inductive HasMembers : Bool → List Char → List (String × List Char) → Prop
  | done {isFirst : Bool} : HasMembers isFirst [] []
  | member {isFirst : Bool} {lead ks ws ws' v cs : List Char} {name : String}
      {ms : List (String × List Char)} (leads : Leads isFirst lead)
      (key : SpellsText ks name.toList) (gap : Gap ws) (gap' : Gap ws')
      (value : IsJson .value v) (next : HasMembers false cs ms) :
      HasMembers isFirst (lead ++ '"' :: (ks ++ (ws ++ ':' :: (ws' ++ (v ++ cs)))))
        ((name, v) :: ms)

/-- A text that holds one object with the given members. -/
inductive IsObject : List Char → List (String × List Char) → Prop
  | object {ws cs ws' ws'' : List Char} {ms : List (String × List Char)} (gap : Gap ws)
      (members : HasMembers true cs ms) (gap' : Gap ws') (gap'' : Gap ws'') :
      IsObject (ws ++ '\x7b' :: (cs ++ (ws' ++ '\x7d' :: ws''))) ms

/-- Where a value may end: at the end of the text, a blank, a comma or a closing bracket. -/
def Delimits (rest : List Char) : Prop :=
  ∀ c, rest.head? = some c → isBlank c = true ∨ c = ',' ∨ ∃ b : Bracket, c = b.closing

/-! ## Strings -/

/-- What spells a text is a string. -/
theorem SpellsText.isText {cs text : List Char} (h : SpellsText cs text) : IsText cs := by
  induction h with
  | quote => exact .quote
  | char other plain visible _ ih => exact .char other plain visible ih
  | short escape _ ih => exact .short (by rw [escape]; rfl) ih
  | unit digits _ _ _ ih => exact .unit (by rw [digits]; rfl) ih
  | pair digits digits' _ _ _ ih =>
    exact .unit (by rw [digits]; rfl) (.unit (by rw [digits']; rfl) ih)

/-- A text without quotes, backslashes and control characters is spelled by itself. -/
theorem spellsText_plain (text : List Char)
    (h : ∀ c ∈ text, c ≠ '"' ∧ c ≠ '\\' ∧ ' ' ≤ c) : SpellsText (text ++ ['"']) text := by
  induction text with
  | nil => exact .quote
  | cons c text ih =>
    obtain ⟨other, plain, visible⟩ := h c List.mem_cons_self
    exact .char other plain visible (ih fun d hd => h d (List.mem_cons_of_mem c hd))

/-! ## Gaps and what leads to an element -/

section Gaps
variable {ws lead rest : List Char} {isFirst : Bool}

theorem skipBlank_gap_append (h : Gap ws) (cs : List Char) : skipBlank (ws ++ cs) = skipBlank cs :=
  List.dropWhile_append_of_pos h

theorem skipBlank_cons {c : Char} (hc : isBlank c = false) (cs : List Char) :
    skipBlank (c :: cs) = c :: cs :=
  List.dropWhile_cons_of_neg (by simp [hc])

theorem skipBlank_gap_cons (h : Gap ws) {c : Char} (hc : isBlank c = false) (cs : List Char) :
    skipBlank (ws ++ c :: cs) = c :: cs := by
  rw [skipBlank_gap_append h, skipBlank_cons hc]

theorem Bracket.isBlank_closing (b : Bracket) : isBlank b.closing = false := by
  cases b <;> decide

theorem delimits_gap_append (h : Gap ws) (hr : Delimits rest) : Delimits (ws ++ rest) := by
  intro c hc
  cases ws with
  | nil => exact hr c hc
  | cons d ws =>
    cases hc
    exact .inl (h c List.mem_cons_self)

theorem delimits_closing (b : Bracket) (rest : List Char) : Delimits (b.closing :: rest) := by
  rintro c hc
  cases hc
  exact .inr (.inr ⟨b, rfl⟩)

theorem Leads.delimits (h : Leads false lead) (rest : List Char) : Delimits (lead ++ rest) := by
  cases h with
  | comma gap =>
    rw [List.append_assoc]
    refine delimits_gap_append gap ?_
    rintro c hc
    cases hc
    exact .inr (.inl rfl)

/-- Behind an element stands a comma, or what stands behind all of them. -/
theorem IsJson.delimits {b : Bracket} {cs : List Char} (h : IsJson (.elements b false) cs)
    (hr : Delimits rest) : Delimits (cs ++ rest) := by
  cases h with
  | done => exact hr
  | item leads =>
    rw [List.append_assoc]
    exact leads.delimits _
  | member leads =>
    rw [List.append_assoc]
    exact leads.delimits _

/-- Members with their texts are elements of an object. -/
theorem HasMembers.isJson {cs : List Char} {ms : List (String × List Char)}
    (h : HasMembers isFirst cs ms) : IsJson (.elements .object isFirst) cs := by
  induction h with
  | done => exact .done
  | member leads key gap gap' value _ ih => exact .member leads key.isText gap gap' value ih

/-- Members split between any two, and a comma leads to those behind. -/
theorem HasMembers.exists_append {cs : List Char} {before after : List (String × List Char)}
    (h : HasMembers isFirst cs (before ++ after)) (hne : before ≠ []) :
    ∃ cs₁ cs₂, cs = cs₁ ++ cs₂ ∧ HasMembers isFirst cs₁ before ∧ HasMembers false cs₂ after := by
  induction before generalizing isFirst cs with
  | nil => exact absurd rfl hne
  | cons m before ih =>
    rw [List.cons_append] at h
    cases h with
    | @member _ lead ks ws ws' v cs name _ leads key gap gap' value next =>
      by_cases hnil : before = []
      · subst hnil
        exact ⟨_, cs, by simp, .member leads key gap gap' value .done, next⟩
      · obtain ⟨cs₁, cs₂, rfl, hbefore, hafter⟩ := ih next hnil
        exact ⟨_, cs₂, by simp, .member leads key gap gap' value hbefore, hafter⟩

end Gaps

/-! ## How a value starts -/

theorem IsMagnitude.exists_digit {cs : List Char} (h : IsMagnitude cs) :
    ∃ c ds, cs = c :: ds ∧ c.isDigit = true := by
  cases h with
  | @parts i f e integer =>
    cases integer with
    | zero => exact ⟨'0', f ++ e, rfl, by decide⟩
    | @digits c ds noZero digits => exact ⟨c, ds ++ (f ++ e), rfl, digits.2 c List.mem_cons_self⟩

theorem ne_of_isDigit {c d : Char} (hc : c.isDigit = true) (hd : d.isDigit = false) : c ≠ d := by
  rintro rfl
  rw [hc] at hd
  cases hd

theorem isBlank_of_isDigit {c : Char} (hc : c.isDigit = true) : isBlank c = false := by
  have hspace := ne_of_isDigit hc (d := ' ') (by decide)
  have hfeed := ne_of_isDigit hc (d := '\n') (by decide)
  have htab := ne_of_isDigit hc (d := '\t') (by decide)
  have hreturn := ne_of_isDigit hc (d := '\r') (by decide)
  simp [isBlank, hspace, hfeed, htab, hreturn]

/-- A value starts neither with a blank nor with a closing bracket. -/
theorem IsJson.exists_cons {v : List Char} (h : IsJson .value v) :
    ∃ c cs, v = c :: cs ∧ isBlank c = false ∧ c ≠ Bracket.array.closing := by
  cases h with
  | scalar scalar =>
    cases scalar with
    | null => exact ⟨'n', "ull".toList, rfl, by decide, by decide⟩
    | boolean b =>
      cases b with
      | false => exact ⟨'f', "alse".toList, rfl, by decide, by decide⟩
      | true => exact ⟨'t', "rue".toList, rfl, by decide, by decide⟩
    | number magnitude =>
      obtain ⟨c, ds, rfl, hc⟩ := magnitude.exists_digit
      exact ⟨c, ds, rfl, isBlank_of_isDigit hc, ne_of_isDigit hc (by decide)⟩
    | minus => exact ⟨'-', _, rfl, by decide, by decide⟩
    | text => exact ⟨'"', _, rfl, by decide, by decide⟩
  | @nested b => cases b <;> exact ⟨_, _, rfl, by decide, by decide⟩

end ComposeGuards.Json
