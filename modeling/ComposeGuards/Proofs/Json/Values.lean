import ComposeGuards.Json.Value
import ComposeGuards.Proofs.Json.Reading
import ComposeGuards.Proofs.Text.LineBreaks
import ComposeGuards.Proofs.Text.Numerals

/-! # Texts and the values they spell

The grammar of JSON with the value that each text spells. A text spells one value only, since the
first character tells the form of the value and no form goes on behind its end. The written text of a
value spells that value.
-/
namespace ComposeGuards.Json

/-- The value that a part of a text spells. Elements between brackets spell the array or the object
that they make up. -/
inductive Spells : Part → List Char → Value → Prop
  | boolean (b : Bool) : Spells .value (toString b).toList (.boolean b)
  | natural {cs : List Char} {n : Nat} (integer : IsInteger cs)
      (value : Nat.ofDigitChars 10 cs 0 = n) : Spells .value cs (.natural n)
  | text {cs : List Char} {s : String} (text : SpellsText cs s.toList) :
      Spells .value ('"' :: cs) (.text s)
  | nested {b : Bracket} {cs ws : List Char} {v : Value} (elements : Spells (.elements b true) cs v)
      (gap : Gap ws) : Spells .value (b.opening :: (cs ++ (ws ++ [b.closing]))) v
  | noItems {isFirst : Bool} : Spells (.elements .array isFirst) [] (.array [])
  | item {isFirst : Bool} {lead cs rest : List Char} {v : Value} {vs : List Value}
      (leads : Leads isFirst lead) (value : Spells .value cs v)
      (next : Spells (.elements .array false) rest (.array vs)) :
      Spells (.elements .array isFirst) (lead ++ (cs ++ rest)) (.array (v :: vs))
  | noMembers {isFirst : Bool} : Spells (.elements .object isFirst) [] (.object [])
  | member {isFirst : Bool} {lead ks ws ws' cs rest : List Char} {key : String} {v : Value}
      {ms : List (String × Value)} (leads : Leads isFirst lead) (spelled : SpellsText ks key.toList)
      (gap : Gap ws) (gap' : Gap ws') (value : Spells .value cs v)
      (next : Spells (.elements .object false) rest (.object ms)) :
      Spells (.elements .object isFirst)
        (lead ++ '"' :: (ks ++ (ws ++ ':' :: (ws' ++ (cs ++ rest))))) (.object ((key, v) :: ms))

/-- A text that holds one value, with blanks around it. -/
def Holds (text : String) (v : Value) : Prop :=
  ∃ ws cs ws', text.toList = ws ++ (cs ++ ws') ∧ Gap ws ∧ Gap ws' ∧ Spells .value cs v

theorem IsInteger.isDigits {cs : List Char} (h : IsInteger cs) : IsDigits cs := by
  cases h with
  | zero => decide
  | digits _ digits => exact digits

theorem IsInteger.isMagnitude {cs : List Char} (h : IsInteger cs) : IsMagnitude cs := by
  have hparts := IsMagnitude.parts h .none .none
  rwa [List.append_nil, List.append_nil] at hparts

theorem Spells.isJson {part : Part} {cs : List Char} {v : Value} (h : Spells part cs v) :
    IsJson part cs := by
  induction h with
  | boolean b => exact .scalar (.boolean b)
  | natural integer => exact .scalar (.number integer.isMagnitude)
  | text text => exact .scalar (.text text.isText)
  | nested _ gap ih => exact .nested ih gap
  | noItems => exact .done
  | item leads _ _ ihv ihs => exact .item leads ihv ihs
  | noMembers => exact .done
  | member leads spelled gap gap' _ _ ihv ihs => exact .member leads spelled.isText gap gap' ihv ihs

/-! ## A text spells one value only -/

/-- The form of a value, as far as its first character tells it. -/
inductive Form
  | boolean (b : Bool)
  | number
  | string
  | between (b : Bracket)

def Value.form : Value → Form
  | boolean b => .boolean b
  | natural _ => .number
  | text _ => .string
  | array _ => .between .array
  | object _ => .between .object

def Form.ofFirst? (c : Char) : Option Form :=
  if c = 't' then some (.boolean true)
  else if c = 'f' then some (.boolean false)
  else if c = '"' then some .string
  else if c = '[' then some (.between .array)
  else if c = '\x7b' then some (.between .object)
  else if c.isDigit then some .number
  else none

theorem Form.ofFirst?_of_isDigit {c : Char} (hc : c.isDigit = true) :
    ofFirst? c = some .number := by
  have htrue := ne_of_isDigit hc (d := 't') (by decide)
  have hfalse := ne_of_isDigit hc (d := 'f') (by decide)
  have hquote := ne_of_isDigit hc (d := '"') (by decide)
  have harray := ne_of_isDigit hc (d := '[') (by decide)
  have hobject := ne_of_isDigit hc (d := '\x7b') (by decide)
  simp [ofFirst?, htrue, hfalse, hquote, harray, hobject, hc]

theorem Spells.form_elements {b : Bracket} {isFirst : Bool} {cs : List Char} {v : Value}
    (h : Spells (.elements b isFirst) cs v) : v.form = .between b := by
  cases h <;> rfl

theorem Spells.form_value {cs : List Char} {v : Value} (h : Spells .value cs v)
    (rest : List Char) : (cs ++ rest).head?.bind Form.ofFirst? = some v.form := by
  cases h with
  | boolean b => cases b <;> rfl
  | natural integer =>
    obtain ⟨c, ds, rfl, hc⟩ := integer.isMagnitude.exists_digit
    exact Form.ofFirst?_of_isDigit hc
  | text => rfl
  | @nested b _ _ _ elements =>
    rw [elements.form_elements]
    cases b <;> rfl

section Unique
variable {lead lead' ws ws' cs cs' rest rest' : List Char} {isFirst : Bool} {c c' : Char}

theorem gap_cancel (h : Gap ws) (h' : Gap ws') (hc : isBlank c = false) (hc' : isBlank c' = false)
    (heq : ws ++ c :: cs = ws' ++ c' :: cs') : c :: cs = c' :: cs' := by
  have hskip := congrArg skipBlank heq
  rwa [skipBlank_gap_cons h hc, skipBlank_gap_cons h' hc'] at hskip

theorem Leads.cancel (h : Leads isFirst lead) (h' : Leads isFirst lead') (hc : isBlank c = false)
    (hc' : isBlank c' = false) (heq : lead ++ c :: cs = lead' ++ c' :: cs') :
    c :: cs = c' :: cs' := by
  have hcomma : isBlank ',' = false := by decide
  cases h with
  | first gap =>
    cases h' with
    | first gap' => exact gap_cancel gap gap' hc hc' heq
  | comma before after =>
    cases h' with
    | comma before' after' =>
      rw [List.append_assoc, List.append_assoc] at heq
      have htail := (List.cons.inj (gap_cancel before before' hcomma hcomma heq)).2
      exact gap_cancel after after' hc hc' htail

/-- What leads to an element does not lead to the end. -/
theorem Leads.ne_closing (h : Leads isFirst lead) (gap : Gap ws) {b : Bracket}
    (hc : isBlank c = false) (hne : c ≠ b.closing) :
    lead ++ c :: cs ≠ ws ++ b.closing :: rest := by
  intro heq
  cases h with
  | first gap' => exact hne (List.cons.inj (gap_cancel gap' gap hc b.isBlank_closing heq)).1
  | comma before after =>
    rw [List.append_assoc] at heq
    have hclosing := (List.cons.inj (gap_cancel before gap (by decide) b.isBlank_closing heq)).1
    cases b <;> cases hclosing

/-- What may stand behind a part: behind elements the bracket that closes them. -/
def Ends : Part → List Char → Prop
  | .value, rest => Delimits rest
  | .elements b _, rest => ∃ ws more, Gap ws ∧ rest = ws ++ b.closing :: more

theorem Ends.delimits {b : Bracket} (h : Ends (.elements b isFirst) rest) : Delimits rest := by
  obtain ⟨ws, more, gap, rfl⟩ := h
  exact delimits_gap_append gap (delimits_closing b more)

theorem IsDigits.rest_eq (h : IsDigits cs) (h' : IsDigits cs') (hr : Delimits rest)
    (hr' : Delimits rest') (heq : cs ++ rest = cs' ++ rest') : rest = rest' := by
  have hskip := congrArg skipDigits heq
  rw [skipDigits_append h hr.ends.1, skipDigits_append h' hr'.ends.1] at hskip
  exact Except.ok.inj hskip

theorem readText_unique {ks ks' : List Char} {key key' : String} (h : SpellsText ks key.toList)
    (h' : SpellsText ks' key'.toList) (heq : ks ++ rest = ks' ++ rest') :
    key = key' ∧ rest = rest' := by
  have hread := congrArg readText heq
  rw [readText_of_spells h, readText_of_spells h'] at hread
  exact Prod.mk.inj (Except.ok.inj hread)

theorem Spells.exists_cons {v : Value} (h : Spells .value cs v) (rest : List Char) :
    ∃ c ds, cs ++ rest = c :: ds ∧ isBlank c = false ∧ c ≠ Bracket.array.closing := by
  obtain ⟨c, ds, rfl, hc, hne⟩ := h.isJson.exists_cons
  exact ⟨c, ds ++ rest, rfl, hc, hne⟩

/-- What a text with a value of that form is made of. -/
def Form.MadeOf : Form → List Char → Value → Prop
  | boolean b, cs, v => cs = (toString b).toList ∧ v = .boolean b
  | number, cs, v => IsInteger cs ∧ v = .natural (Nat.ofDigitChars 10 cs 0)
  | string, cs, v => ∃ ks s, cs = '"' :: ks ∧ v = .text s ∧ SpellsText ks s.toList
  | between b, cs, v => ∃ es ws, cs = b.opening :: (es ++ (ws ++ [b.closing])) ∧ Gap ws ∧
      Spells (.elements b true) es v

theorem Spells.madeOf {v : Value} (h : Spells .value cs v) : v.form.MadeOf cs v := by
  cases h with
  | boolean b => exact ⟨rfl, rfl⟩
  | natural integer value => exact ⟨integer, congrArg Value.natural value.symm⟩
  | text text => exact ⟨_, _, rfl, rfl, text⟩
  | nested elements gap =>
    rw [elements.form_elements]
    exact ⟨_, _, rfl, gap, elements⟩

/-- Texts that agree from the start are made of the same. -/
theorem Spells.madeOf_of_eq {v v' : Value} (h : Spells .value cs v) (h' : Spells .value cs' v')
    (heq : cs ++ rest = cs' ++ rest') : v.form.MadeOf cs' v' := by
  have hform := h.form_value rest
  rw [heq, h'.form_value rest'] at hform
  rw [← Option.some.inj hform]
  exact h'.madeOf

/-- What brackets spell that have no element between them. -/
def Bracket.empty : Bracket → Value
  | array => .array []
  | object => .object []

/-- No element stands where the closing bracket follows. -/
theorem Spells.eq_nil_of_ends {b : Bracket} {v : Value} (h : Spells (.elements b isFirst) cs v)
    (hends : Ends (.elements b isFirst) rest') (heq : rest' = cs ++ rest) :
    cs = [] ∧ v = b.empty := by
  obtain ⟨ws, more, gap, rfl⟩ := hends
  cases h with
  | noItems => exact ⟨rfl, rfl⟩
  | @item _ _ _ next _ _ leads value =>
    obtain ⟨c, ds, hstart, hc, hne⟩ := value.exists_cons (next ++ rest)
    simp only [List.append_assoc, hstart] at heq
    exact absurd heq.symm (leads.ne_closing gap hc hne)
  | noMembers => exact ⟨rfl, rfl⟩
  | member leads =>
    simp only [List.append_assoc, List.cons_append] at heq
    exact absurd heq.symm (leads.ne_closing gap (by decide) (by decide))

/-- Where nothing goes on with a part, its text spells one value and has one end. -/
theorem Spells.unique {part : Part} {cs : List Char} {v : Value} (h : Spells part cs v) :
    ∀ {cs' rest rest' : List Char} {v' : Value}, Spells part cs' v' → Ends part rest →
      Ends part rest' → cs ++ rest = cs' ++ rest' → v = v' ∧ rest = rest' := by
  induction h with
  | boolean b =>
    intro cs' rest rest' v' h' _ _ heq
    obtain ⟨rfl, rfl⟩ := (Spells.boolean b).madeOf_of_eq h' heq
    exact ⟨rfl, List.append_cancel_left heq⟩
  | natural integer value =>
    intro cs' rest rest' v' h' hr hr' heq
    obtain ⟨integer', rfl⟩ := (Spells.natural integer value).madeOf_of_eq h' heq
    have hrest := integer.isDigits.rest_eq integer'.isDigits hr hr' heq
    subst hrest
    rw [← value, List.append_cancel_right heq]
    exact ⟨rfl, rfl⟩
  | text text =>
    intro cs' rest rest' v' h' _ _ heq
    obtain ⟨ks, s, rfl, rfl, text'⟩ := (Spells.text text).madeOf_of_eq h' heq
    obtain ⟨rfl, hrest⟩ := readText_unique text text' (List.cons.inj heq).2
    exact ⟨rfl, hrest⟩
  | @nested b cs ws v elements gap ih =>
    intro cs' rest rest' v' h' _ _ heq
    have hmade := (Spells.nested elements gap).madeOf_of_eq h' heq
    rw [elements.form_elements] at hmade
    obtain ⟨es, ws', rfl, gap', elements'⟩ := hmade
    simp only [List.cons_append, List.append_assoc, List.nil_append, List.cons.injEq,
      true_and] at heq
    obtain ⟨hv, hclosing⟩ := ih elements' ⟨ws, rest, gap, rfl⟩ ⟨ws', rest', gap', rfl⟩ heq
    have hb := b.isBlank_closing
    exact ⟨hv, (List.cons.inj (gap_cancel gap gap' hb hb hclosing)).2⟩
  | noItems =>
    intro cs' rest rest' v' h' hr _ heq
    obtain ⟨rfl, rfl⟩ := h'.eq_nil_of_ends hr heq
    exact ⟨rfl, heq⟩
  | @item isFirst lead cs next v vs leads value items ihv ihs =>
    intro cs' rest rest' v' h' hr hr' heq
    cases h' with
    | noItems => cases ((Spells.item leads value items).eq_nil_of_ends hr' heq.symm).2
    | @item _ lead' cs' next' v' vs' leads' value' items' =>
      obtain ⟨c, ds, hstart, hc, -⟩ := value.exists_cons (next ++ rest)
      obtain ⟨c', ds', hstart', hc', -⟩ := value'.exists_cons (next' ++ rest')
      simp only [List.append_assoc, hstart, hstart'] at heq
      have hvalues := leads.cancel leads' hc hc' heq
      rw [← hstart, ← hstart'] at hvalues
      have hd := items.isJson.delimits hr.delimits
      have hd' := items'.isJson.delimits hr'.delimits
      obtain ⟨rfl, hnext⟩ := ihv value' hd hd' hvalues
      obtain ⟨hvs, hrest⟩ := ihs items' hr hr' hnext
      cases hvs
      exact ⟨rfl, hrest⟩
  | noMembers =>
    intro cs' rest rest' v' h' hr _ heq
    obtain ⟨rfl, rfl⟩ := h'.eq_nil_of_ends hr heq
    exact ⟨rfl, heq⟩
  | @member isFirst lead ks ws ws' cs next key v ms leads spelled gap gap' value members ihv ihs =>
    intro cs' rest rest' v' h' hr hr' heq
    cases h' with
    | noMembers =>
      have hmember := Spells.member leads spelled gap gap' value members
      cases (hmember.eq_nil_of_ends hr' heq.symm).2
    | @member _ lead' ks' us us' cs' next' key' v' ms' leads' spelled' hgap hgap' value' members' =>
      have hquote : isBlank '"' = false := by decide
      have hcolon : isBlank ':' = false := by decide
      simp only [List.append_assoc, List.cons_append] at heq
      have hkeys := (List.cons.inj (leads.cancel leads' hquote hquote heq)).2
      obtain ⟨rfl, hcolons⟩ := readText_unique spelled spelled' hkeys
      have hvalues := (List.cons.inj (gap_cancel gap hgap hcolon hcolon hcolons)).2
      obtain ⟨c, ds, hstart, hc, -⟩ := value.exists_cons (next ++ rest)
      obtain ⟨c', ds', hstart', hc', -⟩ := value'.exists_cons (next' ++ rest')
      rw [hstart, hstart'] at hvalues
      have hvalues := gap_cancel gap' hgap' hc hc' hvalues
      rw [← hstart, ← hstart'] at hvalues
      have hd := members.isJson.delimits hr.delimits
      have hd' := members'.isJson.delimits hr'.delimits
      obtain ⟨rfl, hnext⟩ := ihv value' hd hd' hvalues
      obtain ⟨hms, hrest⟩ := ihs members' hr hr' hnext
      cases hms
      exact ⟨rfl, hrest⟩

/-- A text holds one value at most. -/
theorem Holds.unique {text : String} {v v' : Value} (h : Holds text v) (h' : Holds text v') :
    v = v' := by
  obtain ⟨ws, cs, after, htext, gap, hafter, hv⟩ := h
  obtain ⟨ws', cs', after', htext', gap', hafter', hv'⟩ := h'
  have hdelimits : ∀ {ws : List Char}, Gap ws → Delimits ws := by
    intro ws hgap c hc
    exact .inl (hgap c (List.mem_of_head? hc))
  obtain ⟨c, ds, hstart, hc, -⟩ := hv.exists_cons after
  obtain ⟨c', ds', hstart', hc', -⟩ := hv'.exists_cons after'
  rw [htext', hstart, hstart'] at htext
  have hvalues := gap_cancel gap' gap hc' hc htext
  rw [← hstart, ← hstart'] at hvalues
  exact (hv.unique hv' (hdelimits hafter) (hdelimits hafter') hvalues.symm).1

end Unique

/-! ## Written values -/

/-- A character below the space has two hexadecimal digits, with a zero before a single one. -/
theorem hexQuad?_control : ∀ n < 32,
    (match List.replicate (2 - (Nat.toDigits 16 n).length) '0' ++ Nat.toDigits 16 n with
      | [a, b] => hexQuad? '0' '0' a b
      | _ => none) = some n := by
  decide

theorem SpellsText.escapedChar {cs text : List Char} (h : SpellsText cs text) (c : Char) :
    SpellsText (Value.escapedChar c ++ cs) (c :: text) := by
  unfold Value.escapedChar
  -- seven characters have an escape of one letter
  iterate 7
    split
    · next hc => subst hc; exact .short rfl h
  split
  · next hc =>
    have hlt : c.toNat < 32 := UInt32.lt_iff_toNat_lt.mp hc
    have hdigits := hexQuad?_control c.toNat hlt
    split at hdigits
    · next a b hab =>
      simp only [List.append_assoc, hab]
      have hunit := SpellsText.unit hdigits (by simp [isLowSurrogate]; omega)
        (by simp [isHighSurrogate]; omega) h
      rwa [Char.ofNat_toNat] at hunit
    · cases hdigits
  · next hquote hslash _ _ _ _ _ hc =>
    exact .char hquote hslash (Char.not_lt.mp hc) h

theorem spellsText_quote (text : List Char) :
    SpellsText (text.flatMap Value.escapedChar ++ ['"']) text := by
  induction text with
  | nil => exact .quote
  | cons c text ih =>
    rw [List.flatMap_cons, List.append_assoc]
    exact ih.escapedChar c

theorem head?_toDigits_ne_zero {n : Nat} (hn : 0 < n) : (Nat.toDigits 10 n).head? ≠ some '0' := by
  induction n using Nat.strongRecOn with
  | ind n ih =>
    rw [Nat.toDigits_eq_if (by decide)]
    split
    · next hlt =>
      have hdigit : ∀ k < 10, 0 < k → k.digitChar ≠ '0' := by decide
      simpa using hdigit n hlt hn
    · next hge =>
      have hhead := ih (n / 10) (by omega) (by omega)
      obtain ⟨d, ds, hds⟩ := List.exists_cons_of_ne_nil (Nat.toDigits_ne_nil (n := n / 10) (b := 10))
      rw [hds] at hhead ⊢
      exact hhead

theorem isInteger_toString (n : Nat) : IsInteger (toString n).toList := by
  rw [Text.toList_toString]
  rcases Nat.eq_zero_or_pos n with rfl | hn
  · exact .zero
  · have hhead := head?_toDigits_ne_zero hn
    have hdigits : ∀ c ∈ Nat.toDigits 10 n, c.isDigit = true := fun c hc =>
      Nat.isDigit_of_mem_toDigits (by decide) (by decide) hc
    obtain ⟨d, ds, hds⟩ := List.exists_cons_of_ne_nil (Nat.toDigits_ne_nil (n := n) (b := 10))
    rw [hds] at hhead hdigits ⊢
    exact .digits (fun hd => hhead (congrArg some hd)) ⟨List.cons_ne_nil d ds, hdigits⟩

theorem gap_nil : Gap [] :=
  fun _ hc => nomatch hc

theorem gap_newline (depth : Nat) : Gap (Value.newline depth).toList := by
  intro c hc
  simp only [Value.newline, String.toList_append, String.toList_ofList, List.mem_append] at hc
  rcases hc with hc | hc
  · rw [List.mem_singleton.mp hc]
    decide
  · rw [List.eq_of_mem_replicate hc]
    decide

/-- Put before elements that spell `v`, the text makes them spell `v'`. -/
def Adds (b : Bracket) (cs : List Char) (v v' : Value) : Prop :=
  ∀ {isFirst : Bool} {lead rest : List Char}, Leads isFirst lead →
    Spells (.elements b false) rest v → Spells (.elements b isFirst) (lead ++ (cs ++ rest)) v'

/-- The items of a block make up the value. -/
inductive Fills (b : Bracket) : List String → Value → Prop
  | nil {v : Value} (empty : ∀ isFirst, Spells (.elements b isFirst) [] v) : Fills b [] v
  | cons {item : String} {items : List String} {v v' : Value} (adds : Adds b item.toList v v')
      (next : Fills b items v) : Fills b (item :: items) v'

theorem Fills.spells_rest {b : Bracket} {items : List String} {v : Value} (h : Fills b items v)
    (depth : Nat) :
    Spells (.elements b false)
      (items.flatMap fun i => ("," ++ Value.newline depth).toList ++ i.toList) v := by
  induction h with
  | nil empty => exact empty false
  | @cons item items v v' adds _ ih =>
    have hcomma : Leads false ("," ++ Value.newline depth).toList := by
      rw [String.toList_append]
      exact .comma gap_nil (gap_newline depth)
    rw [List.flatMap_cons, List.append_assoc]
    exact adds hcomma ih

theorem Fills.spells_block {b : Bracket} {items : List String} {v : Value} (h : Fills b items v)
    (depth : Nat) {opening closing : String} (ho : opening.toList = [b.opening])
    (hc : closing.toList = [b.closing]) :
    Spells .value (Value.block depth opening closing items).toList v := by
  cases h with
  | nil empty =>
    simp only [Value.block, List.isEmpty_nil, ↓reduceIte, String.toList_append, ho, hc]
    exact .nested (empty true) gap_nil
  | @cons item items v _ adds next =>
    have helements := adds (.first (gap_newline (depth + 1))) (next.spells_rest (depth + 1))
    have hblock := Spells.nested helements (gap_newline depth)
    simpa only [Value.block, List.isEmpty_cons, Bool.false_eq_true, ↓reduceIte,
      String.toList_append, ho, hc, Text.toList_intercalate_cons, List.append_assoc, List.cons_append,
      List.nil_append] using hblock

mutual

/-- The written text of a value spells it. -/
theorem spells_pretty (depth : Nat) : ∀ v : Value, Spells .value (v.pretty depth).toList v
  | .boolean b => by
    rw [Value.pretty]
    exact .boolean b
  | .natural n => by
    rw [Value.pretty]
    refine .natural (isInteger_toString n) ?_
    rw [Text.toList_toString]
    exact Nat.ofDigitChars_ten_toDigits
  | .text s => by
    rw [Value.pretty, Value.quote, String.toList_ofList]
    exact .text (spellsText_quote s.toList)
  | .array vs => by
    rw [Value.pretty]
    exact (fills_prettyItems depth vs).spells_block depth rfl rfl
  | .object ms => by
    rw [Value.pretty]
    exact (fills_prettyMembers depth ms).spells_block depth rfl rfl

theorem fills_prettyItems (depth : Nat) :
    ∀ vs : List Value, Fills .array (Value.prettyItems depth vs) (.array vs)
  | [] => .nil fun _ => .noItems
  | v :: vs => by
    rw [Value.prettyItems]
    exact .cons (fun leads next => .item leads (spells_pretty (depth + 1) v) next)
      (fills_prettyItems depth vs)

theorem fills_prettyMembers (depth : Nat) :
    ∀ ms : List (String × Value), Fills .object (Value.prettyMembers depth ms) (.object ms)
  | [] => .nil fun _ => .noMembers
  | (key, v) :: ms => by
    rw [Value.prettyMembers]
    refine .cons ?_ (fills_prettyMembers depth ms)
    intro isFirst lead rest leads next
    have hspace : Gap [' '] := by decide
    have hmember := Spells.member leads (spellsText_quote key.toList) gap_nil hspace
      (spells_pretty (depth + 1) v) next
    simpa [Value.quote] using hmember

end

end ComposeGuards.Json
