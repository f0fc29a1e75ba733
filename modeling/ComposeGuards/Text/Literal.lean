/-! # Quoted literals

A literal opens with a double quote and ends at the next double quote that no backslash escapes;
a backslash escapes the one character after it, whatever that is.
-/
namespace ComposeGuards.Text

/-- How many bytes the text takes in UTF-8. -/
def byteLength : List Char → Nat
  | [] => 0
  | c :: cs => c.utf8Size + byteLength cs

/-- The text before a byte offset between two characters, and the text from there on. -/
def splitAtByte (k : Nat) : List Char → List Char × List Char
  | [] => ([], [])
  | c :: cs =>
    if k = 0 then ([], c :: cs)
    else
      let (before, after) := splitAtByte (k - c.utf8Size) cs
      (c :: before, after)

/-- Byte offset of the first double quote that is not escaped. The text starts at `offset`, and
`escaped` tells whether the character before it escapes its first character. -/
def unescapedOffset? (escaped : Bool) (offset : Nat) : List Char → Option Nat
  | [] => none
  | c :: cs =>
    if escaped then unescapedOffset? false (offset + c.utf8Size) cs
    else if c = '\\' then unescapedOffset? true (offset + c.utf8Size) cs
    else if c = '"' then some offset
    else unescapedOffset? false (offset + c.utf8Size) cs

/-- Byte offset of the quote that closes the literal which opens with the first character. -/
def closingOffset? : List Char → Option Nat
  | [] => none
  | c :: cs => unescapedOffset? false c.utf8Size cs

/-! ## The same in characters -/

/-- How many characters of the text lie before the first double quote that is not escaped. -/
def unescapedQuote? : List Char → Option Nat
  | [] => none
  | ['\\'] => none
  | '\\' :: _ :: cs => (unescapedQuote? cs).map (· + 2)
  | '"' :: _ => some 0
  | _ :: cs => (unescapedQuote? cs).map (· + 1)

/-- How many characters lie before the quote that closes the literal which opens with the first
character. -/
def closingQuote? : List Char → Option Nat
  | [] => none
  | _ :: cs => (unescapedQuote? cs).map (· + 1)

theorem unescapedQuote?_cons {c : Char} (hquote : c ≠ '"') (hslash : c ≠ '\\') (cs : List Char) :
    unescapedQuote? (c :: cs) = (unescapedQuote? cs).map (· + 1) := by
  rw [unescapedQuote?]
  · exact fun h _ => hslash h
  · exact fun _ _ h _ => hslash h
  · exact hquote

/-- Every backslash stands last or takes the next character with it. -/
theorem ne_backslash_of_no_escape {c : Char} {cs : List Char} (hlone : c = '\\' → cs = [] → False)
    (hpair : ∀ d ds, c = '\\' → cs = d :: ds → False) : c ≠ '\\' := by
  intro hslash
  cases cs with
  | nil => exact hlone hslash rfl
  | cons d ds => exact hpair d ds hslash rfl

@[simp] theorem byteLength_nil : byteLength [] = 0 := rfl

@[simp] theorem byteLength_cons (c : Char) (cs : List Char) :
    byteLength (c :: cs) = c.utf8Size + byteLength cs := rfl

@[simp] theorem byteLength_append (cs ds : List Char) :
    byteLength (cs ++ ds) = byteLength cs + byteLength ds := by
  induction cs with
  | nil => simp
  | cons c cs ih => simp [ih, Nat.add_assoc]

theorem splitAtByte_take (cs : List Char) (i : Nat) :
    splitAtByte (byteLength (cs.take i)) cs = (cs.take i, cs.drop i) := by
  induction cs generalizing i with
  | nil => simp [splitAtByte]
  | cons c cs ih =>
    cases i with
    | zero => rfl
    | succ i =>
      have hpos : c.utf8Size + byteLength (cs.take i) ≠ 0 :=
        Nat.ne_of_gt (Nat.add_pos_left c.utf8Size_pos _)
      rw [List.take_succ_cons, byteLength_cons, splitAtByte, if_neg hpos, Nat.add_sub_cancel_left,
        ih, List.drop_succ_cons]

theorem unescapedOffset?_eq (cs : List Char) (offset : Nat) :
    unescapedOffset? false offset cs =
      (unescapedQuote? cs).map fun i => offset + byteLength (cs.take i) := by
  fun_induction unescapedQuote? cs generalizing offset with
  | case1 => rfl
  | case2 => rfl
  | case3 c cs ih =>
    simp [unescapedOffset?, ih, Function.comp_def, Nat.add_assoc]
  | case4 cs => simp [unescapedOffset?]
  | case5 c cs hlone hpair hquote ih =>
    have hslash := ne_backslash_of_no_escape hlone hpair
    simp [unescapedOffset?, hslash, show c ≠ '"' from hquote, ih, Function.comp_def, Nat.add_assoc]

/-- The offset counts the bytes of the characters before the closing quote. -/
theorem closingOffset?_eq (cs : List Char) :
    closingOffset? cs = (closingQuote? cs).map fun i => byteLength (cs.take i) := by
  cases cs with
  | nil => rfl
  | cons c cs =>
    simp [closingOffset?, closingQuote?, unescapedOffset?_eq, Function.comp_def]

theorem getElem?_unescapedQuote? {cs : List Char} {i : Nat} (h : unescapedQuote? cs = some i) :
    cs[i]? = some '"' := by
  fun_induction unescapedQuote? cs generalizing i with
  | case1 => cases h
  | case2 => cases h
  | case3 c cs ih =>
    obtain ⟨j, hj, rfl⟩ := Option.map_eq_some_iff.mp h
    simpa using ih hj
  | case4 cs => cases h; rfl
  | case5 c cs _ _ _ ih =>
    obtain ⟨j, hj, rfl⟩ := Option.map_eq_some_iff.mp h
    simpa using ih hj

theorem unescapedQuote?_lt_length {cs : List Char} {i : Nat} (h : unescapedQuote? cs = some i) :
    i < cs.length :=
  (List.getElem?_eq_some_iff.mp (getElem?_unescapedQuote? h)).1

theorem getElem?_closingQuote? {cs : List Char} {i : Nat} (h : closingQuote? cs = some i) :
    cs[i]? = some '"' := by
  cases cs with
  | nil => cases h
  | cons c cs =>
    obtain ⟨j, hj, rfl⟩ := Option.map_eq_some_iff.mp h
    simpa using getElem?_unescapedQuote? hj

/-- A cut one byte past the closing quote is a cut one character past it. -/
theorem splitAtByte_closing {cs : List Char} {i : Nat} (h : closingQuote? cs = some i) :
    splitAtByte (byteLength (cs.take i) + 1) cs = (cs.take (i + 1), cs.drop (i + 1)) := by
  have hquote : byteLength (cs.take (i + 1)) = byteLength (cs.take i) + 1 := by
    rw [List.take_add_one, getElem?_closingQuote? h, byteLength_append]
    rfl
  rw [← hquote, splitAtByte_take]

end ComposeGuards.Text
