import ComposeGuards.Json.Shape
import ComposeGuards.Proofs.Json.Grammar

/-! # Reading texts of the grammar

A string that is spelled is read as its text, and what leads to a key is read up to it. A value is
passed over to its last character, whatever it holds: the scan keeps the brackets that are open, and
a value inside them leads to the same scan behind it.
-/
namespace ComposeGuards.Json

/-! ## Strings -/

theorem readChars_cons {c : Char} (other : c ≠ '"') (plain : c ≠ '\\') (visible : ' ' ≤ c)
    (cs : List Char) : readChars (c :: cs) = prepend c (readChars cs) := by
  rw [readChars]
  · rw [if_neg (Char.not_lt.mpr visible)]
  all_goals simp_all

theorem skipText_cons {c : Char} (other : c ≠ '"') (plain : c ≠ '\\') (visible : ' ' ≤ c)
    (cs : List Char) : skipText (c :: cs) = skipText cs := by
  rw [skipText]
  · rw [if_neg (Char.not_lt.mpr visible)]
  all_goals simp_all

theorem ne_u_of_unescape? {e : Char} (h : (unescape? e).isSome = true) : e ≠ 'u' := by
  rintro rfl
  exact absurd h (by decide)

theorem readChars_short {e c : Char} (h : unescape? e = some c) (cs : List Char) :
    readChars ('\\' :: e :: cs) = prepend c (readChars cs) := by
  have hu : e ≠ 'u' := ne_u_of_unescape? (by rw [h]; rfl)
  rw [readChars]
  · rw [h]
  all_goals simp_all

theorem skipText_short {e : Char} (h : (unescape? e).isSome = true) (cs : List Char) :
    skipText ('\\' :: e :: cs) = skipText cs := by
  have hu : e ≠ 'u' := ne_u_of_unescape? h
  rw [skipText]
  · rw [if_pos h]
  all_goals simp_all

/-- A string is read as the text that it spells. -/
theorem readChars_of_spells {cs text : List Char} (h : SpellsText cs text) (rest : List Char) :
    readChars (cs ++ rest) = .ok (text, rest) := by
  induction h with
  | quote => rw [List.cons_append, List.nil_append, readChars]
  | char other plain visible _ ih =>
    rw [List.cons_append, readChars_cons other plain visible, ih, prepend]
  | short escape _ ih =>
    rw [List.cons_append, List.cons_append, readChars_short escape, ih, prepend]
  | unit digits low high _ ih => simp [readChars, digits, low, high, ih, prepend]
  | @pair a b c d e f g h n m cs text digits digits' high low _ ih =>
    have hlow : isLowSurrogate n = false := by
      simp only [isHighSurrogate, isLowSurrogate, Bool.and_eq_true, decide_eq_true_eq,
        Bool.and_eq_false_iff, decide_eq_false_iff_not] at high ⊢
      omega
    simp [readChars, digits, digits', hlow, high, low, ih, prepend]

theorem readText_of_spells {cs : List Char} {name : String} (h : SpellsText cs name.toList)
    (rest : List Char) : readText (cs ++ rest) = .ok (name, rest) := by
  simp [readText, readChars_of_spells h]

theorem skipText_of_isText {cs : List Char} (h : IsText cs) (rest : List Char) :
    skipText (cs ++ rest) = .ok rest := by
  induction h with
  | quote => rw [List.cons_append, List.nil_append, skipText]
  | char other plain visible _ ih => rw [List.cons_append, skipText_cons other plain visible, ih]
  | short escape _ ih => rw [List.cons_append, List.cons_append, skipText_short escape, ih]
  | unit digits _ ih => simp [skipText, digits, ih]

/-! ## Keys, marks and words -/

section Pieces
variable {ws lead ks : List Char} {isFirst : Bool} {name : String}

theorem readKey?_lead (h : Leads isFirst lead) (hk : SpellsText ks name.toList) (cs : List Char) :
    readKey? isFirst (lead ++ '"' :: (ks ++ cs)) = .ok (some name, cs) := by
  have hquote : isBlank '"' = false := by decide
  have hcomma : isBlank ',' = false := by decide
  cases h with
  | first gap => simp [readKey?, skipBlank_gap_cons gap hquote, readText_of_spells hk]
  | comma gap gap' =>
    rw [List.append_assoc, List.cons_append]
    simp [readKey?, skipBlank_gap_cons gap hcomma, skipBlank_gap_cons gap' hquote,
      readText_of_spells hk]

theorem readKey?_closing (h : Gap ws) (isFirst : Bool) (cs : List Char) :
    readKey? isFirst (ws ++ '\x7d' :: cs) = .ok (none, cs) := by
  have hclosing : isBlank '\x7d' = false := by decide
  simp [readKey?, skipBlank_gap_cons h hclosing]

theorem readMark_gap (h : Gap ws) {c : Char} (hc : isBlank c = false) (cs : List Char) :
    readMark c (ws ++ c :: cs) = .ok cs := by
  simp [readMark, skipBlank_gap_cons h hc]

theorem readBool_gap (h : Gap ws) (b : Bool) (cs : List Char) :
    readBool (ws ++ ((toString b).toList ++ cs)) = .ok (b, cs) := by
  rw [readBool, skipBlank_gap_append h]
  cases b with
  | false =>
    exact congrArg (Except.map fun rest => (false, rest)) (readWord_append "alse".toList cs)
  | true => exact congrArg (Except.map fun rest => (true, rest)) (readWord_append "rue".toList cs)

theorem readUnit_gap (h : Gap ws) (cs : List Char) :
    readUnit (ws ++ ("null".toList ++ cs)) = .ok cs := by
  rw [readUnit, skipBlank_gap_append h]
  exact readWord_append "ull".toList cs

theorem readEnd_gap (h : Gap ws) : readEnd ws = .ok () := by
  have hnil := skipBlank_gap_append h []
  rw [List.append_nil] at hnil
  rw [readEnd, hnil]
  rfl

end Pieces

/-! ## Numbers -/

section Numbers
variable {ds cs rest : List Char}

/-- No digit follows. -/
def EndsDigits (rest : List Char) : Prop :=
  ∀ c, rest.head? = some c → c.isDigit = false

theorem EndsDigits.cons {c : Char} (h : c.isDigit = false) (cs : List Char) :
    EndsDigits (c :: cs) := by
  rintro d hd
  cases hd
  exact h

theorem skipDigits_append (h : IsDigits ds) (hr : EndsDigits rest) :
    skipDigits (ds ++ rest) = .ok rest := by
  have hdrop : (ds ++ rest).dropWhile Char.isDigit = rest := by
    rw [List.dropWhile_append_of_pos h.2]
    cases rest with
    | nil => rfl
    | cons c rest => rw [List.dropWhile_cons_of_neg (by simp [hr c rfl])]
  obtain ⟨c, ds', rfl⟩ := List.exists_cons_of_ne_nil h.1
  have hc : c.isDigit = true := h.2 c List.mem_cons_self
  rw [List.cons_append] at hdrop ⊢
  rw [skipDigits, if_pos hc]
  rw [List.dropWhile_cons_of_pos hc] at hdrop
  rw [hdrop]

theorem skipInteger_append (h : IsInteger cs) (hr : EndsDigits rest) :
    skipInteger (cs ++ rest) = .ok rest := by
  cases h with
  | zero =>
    cases rest with
    | nil => rfl
    | cons c rest => simp [skipInteger, hr c rfl]
  | @digits c cs noZero digits =>
    rw [List.cons_append, skipInteger, ← List.cons_append, skipDigits_append digits hr]
    exact fun _ hcons => noZero (List.cons.inj hcons).1

theorem skipFraction_append (h : IsFraction cs) (hr : EndsDigits rest)
    (hpoint : rest.head? ≠ some '.') : skipFraction (cs ++ rest) = .ok rest := by
  cases h with
  | none =>
    rw [List.nil_append, skipFraction]
    rintro ds rfl
    exact hpoint rfl
  | point digits => exact skipDigits_append digits hr

theorem exponentSign_append {sign : List Char} (hs : sign = [] ∨ sign = ['+'] ∨ sign = ['-'])
    (h : IsDigits ds) (rest : List Char) :
    (exponentSign (sign ++ (ds ++ rest))).2 = ds ++ rest := by
  rcases hs with rfl | rfl | rfl
  · obtain ⟨c, ds, rfl⟩ := List.exists_cons_of_ne_nil h.1
    have hc : c.isDigit = true := h.2 c List.mem_cons_self
    rw [List.nil_append, List.cons_append, exponentSign]
    · rintro _ hplus
      exact ne_of_isDigit hc (by decide) (List.cons.inj hplus).1
    · rintro _ hminus
      exact ne_of_isDigit hc (by decide) (List.cons.inj hminus).1
  · rfl
  · rfl

theorem skipExponent_append (h : IsExponent cs) (hr : EndsDigits rest)
    (he : rest.head? ≠ some 'e') (hE : rest.head? ≠ some 'E') :
    skipExponent (cs ++ rest) = .ok rest := by
  cases h with
  | none =>
    rw [List.nil_append, skipExponent]
    · rintro ds rfl
      exact he rfl
    · rintro ds rfl
      exact hE rfl
  | @scale e sign ds mark signed digits =>
    rw [List.cons_append, List.append_assoc]
    rcases mark with rfl | rfl
    all_goals rw [skipExponent, exponentSign_append signed digits, skipDigits_append digits hr]

theorem Delimits.ends (h : Delimits rest) :
    EndsDigits rest ∧ rest.head? ≠ some '.' ∧ rest.head? ≠ some 'e' ∧ rest.head? ≠ some 'E' := by
  cases rest with
  | nil => exact ⟨fun c hc => (by cases hc), by simp, by simp, by simp⟩
  | cons c rest =>
    rcases h c rfl with hblank | rfl | ⟨b, rfl⟩
    · simp only [isBlank, Bool.or_eq_true, decide_eq_true_eq] at hblank
      rcases hblank with ((rfl | rfl) | rfl) | rfl <;>
        exact ⟨.cons (by decide) rest, by simp, by simp, by simp⟩
    · exact ⟨.cons (by decide) rest, by simp, by simp, by simp⟩
    · cases b <;>
        exact ⟨.cons (by decide) rest, by simp [Bracket.closing], by simp [Bracket.closing],
          by simp [Bracket.closing]⟩

/-- What follows the integer part does not go on with it, nor what follows the fraction. -/
theorem IsExponent.ends (h : IsExponent cs) (hr : Delimits rest) :
    EndsDigits (cs ++ rest) ∧ (cs ++ rest).head? ≠ some '.' := by
  cases h with
  | none => exact ⟨hr.ends.1, hr.ends.2.1⟩
  | scale mark => rcases mark with rfl | rfl <;> exact ⟨.cons (by decide) _, by simp⟩

theorem IsFraction.ends (h : IsFraction cs) (hr : EndsDigits rest) : EndsDigits (cs ++ rest) := by
  cases h with
  | none => exact hr
  | point => exact .cons (by decide) _

theorem skipMagnitude_append (h : IsMagnitude cs) (hr : Delimits rest) :
    skipMagnitude (cs ++ rest) = .ok rest := by
  cases h with
  | @parts i f e integer fraction exponent =>
    obtain ⟨hdigits, hpoint⟩ := exponent.ends hr
    have hinteger : skipInteger (i ++ (f ++ (e ++ rest))) = .ok (f ++ (e ++ rest)) :=
      skipInteger_append integer (fraction.ends hdigits)
    have hfraction : skipFraction (f ++ (e ++ rest)) = .ok (e ++ rest) :=
      skipFraction_append fraction hdigits hpoint
    have hexponent : skipExponent (e ++ rest) = .ok rest :=
      skipExponent_append exponent hr.ends.1 hr.ends.2.2.1 hr.ends.2.2.2
    rw [List.append_assoc, List.append_assoc, skipMagnitude, hinteger]
    simp only [bind, Except.bind, hfraction, hexponent]

end Numbers

/-! ## Values -/

section Values
variable {opened outer : List Bracket} {b : Bracket} {isFirst : Bool} {s : SkipState}
  {src v cs rest ws lead : List Char}

theorem skipHead_of_isDigit {c : Char} (hc : c.isDigit = true) (cs : List Char) :
    skipHead opened (c :: cs) = afterScalar opened (skipMagnitude (c :: cs)) := by
  rw [skipHead]
  · rw [if_pos hc]
  all_goals
    intro h
    exact ne_of_isDigit hc (by decide) h

theorem skipHead_scalar (h : IsScalar v) (hr : Delimits rest) :
    skipHead opened (v ++ rest) = afterValue opened rest := by
  cases h with
  | null => exact congrArg (afterScalar opened) (readWord_append "ull".toList rest)
  | boolean b =>
    cases b with
    | false => exact congrArg (afterScalar opened) (readWord_append "alse".toList rest)
    | true => exact congrArg (afterScalar opened) (readWord_append "rue".toList rest)
  | number magnitude =>
    have hskip := skipMagnitude_append magnitude hr
    obtain ⟨c, ds, rfl, hc⟩ := magnitude.exists_digit
    rw [List.cons_append] at hskip ⊢
    rw [skipHead_of_isDigit hc, hskip, afterScalar]
  | minus magnitude =>
    rw [List.cons_append, skipHead, skipMagnitude_append magnitude hr, afterScalar]
  | text text => rw [List.cons_append, skipHead, skipText_of_isText text, afterScalar]

theorem skipHead_opening (cs : List Char) :
    skipHead opened (b.opening :: cs) = .ok (.inl (.start, b :: opened), cs) := by
  cases b <;> rfl

/-- The scan behind a value: at the end, or before the next element of the innermost bracket. -/
def resume (opened : List Bracket) (rest : List Char) : Result Unit :=
  match opened with
  | [] => .ok ((), rest)
  | _ :: _ => iterate skipStep (.next, opened) rest

theorem iterate_afterValue (h : skipStep s src = afterValue opened rest)
    (hlength : rest.length < src.length) : iterate skipStep s src = resume opened rest := by
  cases opened with
  | nil => exact iterate_done h
  | cons b outer => exact iterate_step h hlength

/-- What is expected inside a bracket. -/
def expected (isFirst : Bool) : Expect :=
  if isFirst then .start else .next

theorem skipStep_value (h : Gap ws) (hv : IsJson .value v) :
    skipStep (.value, opened) (ws ++ (v ++ rest)) = skipHead opened (v ++ rest) := by
  obtain ⟨c, cs, rfl, hc, -⟩ := hv.exists_cons
  rw [List.cons_append]
  simp [skipStep, skipBlank_gap_cons h hc]

theorem skipStep_lead (h : Leads isFirst lead) {c : Char} (hc : isBlank c = false)
    (hb : c ≠ b.closing) (cs : List Char) :
    skipStep (expected isFirst, b :: outer) (lead ++ c :: cs) =
      skipElement b (b :: outer) (c :: cs) := by
  cases h with
  | first gap => simp [skipStep, expected, skipBlank_gap_cons gap hc, hb]
  | comma gap gap' =>
    have hcomma : ',' ≠ b.closing := by cases b <;> decide
    have hblank : isBlank ',' = false := by decide
    rw [List.append_assoc, List.cons_append]
    simp [skipStep, expected, skipBlank_gap_cons gap hblank, skipBlank_gap_cons gap' hc, hcomma]

theorem skipStep_closing (h : Gap ws) (isFirst : Bool) (rest : List Char) :
    skipStep (expected isFirst, b :: outer) (ws ++ b.closing :: rest) = afterValue outer rest := by
  cases isFirst <;> simp [skipStep, expected, skipBlank_gap_cons h b.isBlank_closing]

theorem skipKey_of_isText {ks : List Char} (hk : IsText ks) (hgap : Gap ws) (cs : List Char) :
    skipKey opened ('"' :: (ks ++ (ws ++ ':' :: cs))) = .ok (.inl (.value, opened), cs) := by
  have hblank : isBlank ':' = false := by decide
  simp [skipKey, skipText_of_isText hk, readMark_gap hgap hblank]

/-- What passing over a part of a text leads to, whatever brackets are open around it. A value may
be what comes next in any state whose step starts with it. -/
def PassedOver : Part → List Char → Prop
  | .value, v => ∀ opened s src rest, Delimits rest →
      skipStep s src = skipHead opened (v ++ rest) → (v ++ rest).length ≤ src.length →
      iterate skipStep s src = resume opened rest
  | .elements b isFirst, cs => ∀ outer ws rest, Gap ws →
      iterate skipStep (expected isFirst, b :: outer) (cs ++ (ws ++ b.closing :: rest)) =
        resume outer rest

/-- By the grammar: the brackets that are open around a part stay as they are. -/
theorem IsJson.passedOver {part : Part} (h : IsJson part cs) : PassedOver part cs := by
  induction h with
  | @scalar v scalar =>
    intro opened s src rest hr hstep hlength
    rw [skipHead_scalar scalar hr] at hstep
    have hpos : 0 < v.length := by
      obtain ⟨c, cs, rfl, -⟩ := (IsJson.scalar scalar).exists_cons
      simp
    rw [List.length_append] at hlength
    exact iterate_afterValue hstep (by omega)
  | @nested b cs ws elements gap ih =>
    intro opened s src rest hr hstep hlength
    have hsrc : b.opening :: (cs ++ (ws ++ [b.closing])) ++ rest =
        b.opening :: (cs ++ (ws ++ b.closing :: rest)) := by simp
    rw [hsrc] at hstep hlength
    rw [skipHead_opening] at hstep
    rw [iterate_step hstep (by rw [List.length_cons] at hlength; omega)]
    exact ih opened ws rest gap
  | @done b isFirst =>
    intro outer ws rest gap
    refine iterate_afterValue (skipStep_closing gap isFirst rest) ?_
    simp only [List.nil_append, List.length_append, List.length_cons]
    omega
  | @item isFirst lead v cs leads value next ihv ihn =>
    intro outer ws rest gap
    obtain ⟨c, ds, rfl, hc, hclosing⟩ := value.exists_cons
    have hrest : Delimits (cs ++ (ws ++ Bracket.array.closing :: rest)) :=
      next.delimits (delimits_gap_append gap (delimits_closing _ _))
    have hstep : skipStep (expected isFirst, .array :: outer)
        (lead ++ (c :: ds ++ (cs ++ (ws ++ Bracket.array.closing :: rest)))) =
          skipHead (.array :: outer)
            (c :: ds ++ (cs ++ (ws ++ Bracket.array.closing :: rest))) :=
      skipStep_lead leads hc hclosing _
    rw [List.append_assoc, List.append_assoc]
    rw [ihv _ _ _ _ hrest hstep (by simp)]
    exact ihn outer ws rest gap
  | @member isFirst lead ks ws ws' v cs leads key gap gap' value next ihv ihn =>
    intro outer ws'' rest gap''
    have hrest : Delimits (cs ++ (ws'' ++ Bracket.object.closing :: rest)) :=
      next.delimits (delimits_gap_append gap'' (delimits_closing _ _))
    have hkey : skipStep (expected isFirst, .object :: outer)
        (lead ++ '"' :: (ks ++ (ws ++ ':' ::
          (ws' ++ (v ++ (cs ++ (ws'' ++ Bracket.object.closing :: rest))))))) =
          .ok (.inl (.value, .object :: outer),
            ws' ++ (v ++ (cs ++ (ws'' ++ Bracket.object.closing :: rest)))) := by
      rw [skipStep_lead leads (by decide) (by decide)]
      exact skipKey_of_isText key gap _
    have hvalue : skipStep (.value, .object :: outer)
        (ws' ++ (v ++ (cs ++ (ws'' ++ Bracket.object.closing :: rest)))) =
          skipHead (.object :: outer) (v ++ (cs ++ (ws'' ++ Bracket.object.closing :: rest))) :=
      skipStep_value gap' value
    simp only [List.append_assoc, List.cons_append]
    rw [iterate_step hkey (by simp; omega), ihv _ _ _ _ hrest hvalue (by simp)]
    exact ihn outer ws'' rest gap''

/-- A value is passed over to its last character. -/
theorem skipValue_of_isJson (hv : IsJson .value v) (hgap : Gap ws) (hr : Delimits rest) :
    skipValue (ws ++ (v ++ rest)) = .ok rest := by
  have hpassed := hv.passedOver [] _ _ rest hr (skipStep_value hgap hv) (by simp)
  rw [skipValue, hpassed, resume]

end Values

end ComposeGuards.Json
