import ComposeGuards.Text.Blank
import Mathlib.Data.List.DropRight

/-! # Words and the blanks around them

A word is a text without blanks that holds something. Splitting at one blank splits the words, and
from this one equation it follows which words a text has: those that single spaces join are read
back as they are. A trimmed text is one that neither starts nor ends with a blank.
-/
namespace ComposeGuards.Text

/-- A text that splitting into words leaves whole. -/
def IsWord (s : String) : Prop :=
  s ≠ "" ∧ ∀ c ∈ s.toList, isBlank c = false

/-- A text with no blank at either end. -/
def Trimmed (cs : List Char) : Prop :=
  (∀ c, cs.head? = some c → isBlank c = false) ∧ ∀ c, cs.getLast? = some c → isBlank c = false

/-- The words with one space between each two. -/
def spaced : List String → List Char
  | [] => []
  | [w] => w.toList
  | w :: ws => w.toList ++ ' ' :: spaced ws

-- by the characters of the text, not by all characters there are
instance (s : String) : Decidable (IsWord s) :=
  decidable_of_iff (s ≠ "" ∧ s.toList.all (fun c => !isBlank c) = true) (by simp [IsWord])

instance (cs : List Char) : Decidable (Trimmed cs) :=
  decidable_of_iff (cs.head?.all (fun c => !isBlank c) = true ∧
    cs.getLast?.all (fun c => !isBlank c) = true) (by simp [Trimmed, Option.all_eq_true])

theorem isBlank_space : isBlank ' ' = true := by decide

theorem IsWord.toList_ne_nil {s : String} (h : IsWord s) : s.toList ≠ [] := by
  intro hs
  exact h.1 (String.toList_eq_nil_iff.mp hs)

theorem IsWord.space_not_mem {s : String} (h : IsWord s) : ' ' ∉ s.toList := by
  intro hs
  have := h.2 ' ' hs
  rw [isBlank_space] at this
  cases this

theorem IsWord.head?_eq_some {s : String} (h : IsWord s) :
    ∃ c cs, s.toList = c :: cs ∧ isBlank c = false := by
  cases hs : s.toList with
  | nil => exact absurd hs h.toList_ne_nil
  | cons c cs => exact ⟨c, cs, rfl, h.2 c (by rw [hs]; exact List.mem_cons_self)⟩

theorem spaced_cons_cons (w v : String) (ws : List String) :
    spaced (w :: v :: ws) = w.toList ++ ' ' :: spaced (v :: ws) := rfl

/-! ## Words -/

theorem words_append_blank {c : Char} (hc : isBlank c = true) (xs ys : List Char) :
    words (xs ++ c :: ys) = words xs ++ words ys := by
  unfold words
  rw [List.splitOnP_append_cons xs ys hc, List.filter_append, List.map_append]

theorem words_nil : words [] = [] := by
  simp [words, List.splitOnP_nil]

theorem words_cons_blank {c : Char} (hc : isBlank c = true) (cs : List Char) :
    words (c :: cs) = words cs := by
  simpa [words_nil] using words_append_blank hc [] cs

theorem words_blanks_append {bs : List Char} (hb : ∀ c ∈ bs, isBlank c = true) (cs : List Char) :
    words (bs ++ cs) = words cs := by
  induction bs with
  | nil => rfl
  | cons c bs ih =>
    rw [List.cons_append, words_cons_blank (hb c List.mem_cons_self)]
    exact ih fun d hd => hb d (List.mem_cons_of_mem c hd)

theorem words_toList {w : String} (hw : IsWord w) : words w.toList = [w] := by
  have hne : w.toList.isEmpty = false := by simpa using hw.toList_ne_nil
  simp [words, List.splitOnP_eq_singleton hw.2, hw.1]

/-- A word at the front is the first word if a blank or nothing follows it. -/
theorem words_toList_append {w : String} (hw : IsWord w) {rest : List Char}
    (hr : ∀ c, rest.head? = some c → isBlank c = true) :
    words (w.toList ++ rest) = w :: words rest := by
  cases rest with
  | nil => rw [List.append_nil, words_toList hw, words_nil]
  | cons c rest =>
    have hc : isBlank c = true := hr c rfl
    rw [words_append_blank hc, words_toList hw, words_cons_blank hc]
    rfl

theorem words_spaced {ws : List String} (h : ∀ w ∈ ws, IsWord w) : words (spaced ws) = ws := by
  induction ws with
  | nil => exact words_nil
  | cons w ws ih =>
    have hw : IsWord w := h w List.mem_cons_self
    cases ws with
    | nil => exact words_toList hw
    | cons v ws =>
      rw [spaced_cons_cons, words_append_blank isBlank_space, words_toList hw,
        ih fun u hu => h u (List.mem_cons_of_mem w hu)]
      rfl

theorem isWord_ofList {cs : List Char} (hne : cs ≠ []) (h : ∀ c ∈ cs, isBlank c = false) :
    IsWord (String.ofList cs) :=
  ⟨by simpa [String.ofList_eq_empty_iff] using hne, by simpa using h⟩

/-- The words of a text are words that stand in it after nothing or a blank. The induction is on the
length, since a text with a blank splits into two shorter ones. -/
theorem exists_append_of_mem_words {cs : List Char} {w : String} (h : w ∈ words cs) :
    IsWord w ∧ ∃ xs ys, cs = xs ++ (w.toList ++ ys) ∧
      ∀ c, xs.getLast? = some c → isBlank c = true := by
  induction hn : cs.length using Nat.strong_induction_on generalizing cs with
  | _ n ih =>
    subst hn
    by_cases hb : ∃ c ∈ cs, isBlank c = true
    · obtain ⟨c, hc, hblank⟩ := hb
      obtain ⟨us, vs, rfl⟩ := List.append_of_mem hc
      rw [words_append_blank hblank] at h
      rcases List.mem_append.mp h with h | h
      · obtain ⟨hw, xs, ys, hus, hxs⟩ := ih us.length (by simp) h rfl
        exact ⟨hw, xs, ys ++ c :: vs, by simp [hus], hxs⟩
      · obtain ⟨hw, xs, ys, hvs, hxs⟩ := ih vs.length (by simp; omega) h rfl
        refine ⟨hw, us ++ c :: xs, ys, by simp [hvs], ?_⟩
        intro d hd
        cases hlast : xs.getLast? with
        | none =>
          rw [List.getLast?_eq_none_iff] at hlast
          subst hlast
          simp only [List.getLast?_concat, Option.some.injEq] at hd
          rw [← hd]
          exact hblank
        | some e =>
          apply hxs d
          have hne : xs ≠ [] := by rintro rfl; cases hlast
          rwa [List.append_cons, List.getLast?_append_of_ne_nil _ hne] at hd
    · have hall : ∀ c ∈ cs, isBlank c = false := by
        intro c hc
        simpa using fun hblank => hb ⟨c, hc, hblank⟩
      by_cases hne : cs = []
      · subst hne
        rw [words_nil] at h
        cases h
      · have hw := isWord_ofList hne hall
        rw [← String.toList_ofList (l := cs), words_toList hw, List.mem_singleton] at h
        subst h
        exact ⟨hw, [], [], by simp, fun c hc => by cases hc⟩

theorem isWord_of_mem_words {cs : List Char} {w : String} (h : w ∈ words cs) : IsWord w :=
  (exists_append_of_mem_words h).1

theorem forall_isWord_words (cs : List Char) : ∀ w ∈ words cs, IsWord w :=
  fun _ hw => isWord_of_mem_words hw

/-! ## Trimming -/

theorem trimStart_blanks_append {bs : List Char} (hb : ∀ c ∈ bs, isBlank c = true)
    (cs : List Char) : trimStart (bs ++ cs) = trimStart cs := by
  rw [trimStart, List.dropWhile_append_of_pos hb, trimStart]

theorem trimStart_eq_self {cs : List Char} (h : ∀ c, cs.head? = some c → isBlank c = false) :
    trimStart cs = cs := by
  cases cs with
  | nil => rfl
  | cons c cs => rw [trimStart, List.dropWhile_cons_of_neg (by simp [h c rfl])]

theorem head?_trimStart {cs : List Char} {c : Char} (h : (trimStart cs).head? = some c) :
    isBlank c = false := by
  have hnot := List.head?_dropWhile_not isBlank cs
  rw [trimStart] at h
  rw [h] at hnot
  exact hnot

theorem exists_blanks_append_trimStart (cs : List Char) :
    ∃ bs, cs = bs ++ trimStart cs ∧ ∀ c ∈ bs, isBlank c = true :=
  ⟨cs.takeWhile isBlank, List.takeWhile_append_dropWhile.symm, fun _ hc => List.mem_takeWhile_imp hc⟩

theorem words_trimStart (cs : List Char) : words (trimStart cs) = words cs := by
  obtain ⟨bs, hcs, hbs⟩ := exists_blanks_append_trimStart cs
  conv_rhs => rw [hcs, words_blanks_append hbs]

theorem trimEnd_eq_rdropWhile (cs : List Char) : trimEnd cs = cs.rdropWhile isBlank := by
  induction cs with
  | nil => rfl
  | cons c cs ih =>
    rw [trimEnd, ih, List.rdropWhile, List.rdropWhile, List.reverse_cons, List.dropWhile_append]
    cases hr : cs.reverse.dropWhile isBlank with
    | nil => by_cases hc : isBlank c = true <;> simp [hc]
    | cons d ds => simp

theorem trimEnd_eq_self {cs : List Char} (h : ∀ c, cs.getLast? = some c → isBlank c = false) :
    trimEnd cs = cs := by
  rw [trimEnd_eq_rdropWhile, List.rdropWhile_eq_self_iff]
  intro hne
  simpa using h (cs.getLast hne) (List.getLast?_eq_some_getLast hne)

theorem getLast?_trimEnd {cs : List Char} {c : Char} (h : (trimEnd cs).getLast? = some c) :
    isBlank c = false := by
  rw [trimEnd_eq_rdropWhile] at h
  have hne : cs.rdropWhile isBlank ≠ [] := by
    intro hnil
    rw [hnil] at h
    cases h
  have hlast := List.rdropWhile_last_not isBlank cs hne
  rw [List.getLast?_eq_some_getLast hne] at h
  rw [Option.some.inj h] at hlast
  simpa using hlast

theorem trimEnd_isPrefix (cs : List Char) : trimEnd cs <+: cs := by
  rw [trimEnd_eq_rdropWhile]
  exact List.rdropWhile_prefix isBlank cs

theorem trimmed_nil : Trimmed [] := by
  constructor <;> (intro c h; cases h)

/-- A prefix starts as the whole text does, so only its end has to be trimmed. -/
theorem trimmed_of_isPrefix {cs ds : List Char} (h : cs <+: ds)
    (hd : ∀ c, ds.head? = some c → isBlank c = false)
    (hl : ∀ c, cs.getLast? = some c → isBlank c = false) : Trimmed cs := by
  refine ⟨?_, hl⟩
  intro c hc
  apply hd c
  obtain ⟨es, rfl⟩ := h
  cases cs with
  | nil => cases hc
  | cons d cs => exact hc

theorem trimmed_trim (cs : List Char) : Trimmed (trim cs) :=
  trimmed_of_isPrefix (trimEnd_isPrefix _) (fun _ => head?_trimStart) fun _ => getLast?_trimEnd

theorem trim_eq_self {cs : List Char} (h : Trimmed cs) : trim cs = cs := by
  rw [trim, trimStart_eq_self h.1, trimEnd_eq_self h.2]

theorem trim_blanks_append {bs : List Char} (hb : ∀ c ∈ bs, isBlank c = true) (cs : List Char) :
    trim (bs ++ cs) = trim cs := by
  rw [trim, trimStart_blanks_append hb, trim]

theorem IsWord.trimmed {w : String} (hw : IsWord w) : Trimmed w.toList :=
  ⟨fun c hc => hw.2 c (List.mem_of_mem_head? hc), fun c hc => hw.2 c (List.mem_of_getLast? hc)⟩

theorem eq_nil_of_trimStart_eq_nil {cs : List Char}
    (hl : ∀ c, cs.getLast? = some c → isBlank c = false) (h : trimStart cs = []) : cs = [] := by
  by_contra hne
  have hall : ∀ c ∈ cs, isBlank c = true := List.dropWhile_eq_nil_iff.mp h
  have hlast := hl (cs.getLast hne) (List.getLast?_eq_some_getLast hne)
  rw [hall _ (List.getLast_mem hne)] at hlast
  cases hlast

/-- Only the first and the last character matter. -/
theorem Trimmed.append {xs ys : List Char} (hx : Trimmed xs) (hy : Trimmed ys) (hxs : xs ≠ [])
    (hys : ys ≠ []) (mid : List Char) : Trimmed (xs ++ (mid ++ ys)) := by
  constructor
  · intro c hc
    rw [List.head?_append_of_ne_nil xs hxs] at hc
    exact hx.1 c hc
  · intro c hc
    rw [← List.append_assoc, List.getLast?_append_of_ne_nil _ hys] at hc
    exact hy.2 c hc

theorem spaced_ne_nil {w : String} (hw : IsWord w) (ws : List String) : spaced (w :: ws) ≠ [] := by
  cases ws with
  | nil => exact hw.toList_ne_nil
  | cons v ws => rw [spaced_cons_cons]; simp

theorem trimmed_spaced {ws : List String} (h : ∀ w ∈ ws, IsWord w) : Trimmed (spaced ws) := by
  induction ws with
  | nil => exact trimmed_nil
  | cons w ws ih =>
    have hw : IsWord w := h w List.mem_cons_self
    cases ws with
    | nil => exact hw.trimmed
    | cons v ws =>
      have hv : IsWord v := h v (by simp)
      have htail := ih fun u hu => h u (List.mem_cons_of_mem w hu)
      exact hw.trimmed.append htail hw.toList_ne_nil (spaced_ne_nil hv ws) [' ']

/-! ## The first word -/

/-- A text that is not blank is its first word and what follows it, after blanks. -/
theorem exists_first_word {cs : List Char} (h : trimStart cs ≠ []) :
    ∃ w rest, IsWord w ∧ trimStart cs = w.toList ++ rest ∧
      (∀ c, rest.head? = some c → isBlank c = true) ∧ words cs = w :: words rest := by
  let v := (trimStart cs).takeWhile fun c => !isBlank c
  let rest := (trimStart cs).dropWhile fun c => !isBlank c
  have hsplit : trimStart cs = v ++ rest := List.takeWhile_append_dropWhile.symm
  have hv : v ≠ [] := by
    obtain ⟨c, ds, hcs⟩ := List.exists_cons_of_ne_nil h
    have hc : isBlank c = false := head?_trimStart (by rw [hcs]; rfl)
    simp [v, hcs, hc]
  have hword : IsWord (String.ofList v) :=
    isWord_ofList hv fun c hc => by simpa using List.mem_takeWhile_imp hc
  have hrest : ∀ c, rest.head? = some c → isBlank c = true := by
    intro c hc
    have hnot := List.head?_dropWhile_not (fun c => !isBlank c) (trimStart cs)
    rw [show (trimStart cs).dropWhile (fun c => !isBlank c) = rest from rfl, hc] at hnot
    simpa using hnot
  refine ⟨String.ofList v, rest, hword, by rw [String.toList_ofList, hsplit], hrest, ?_⟩
  rw [← words_trimStart, hsplit, ← words_toList_append hword hrest, String.toList_ofList]

theorem words_eq_nil_iff {cs : List Char} : words cs = [] ↔ trimStart cs = [] := by
  constructor
  · intro h
    by_contra hne
    obtain ⟨w, rest, -, -, -, hw⟩ := exists_first_word hne
    rw [h] at hw
    cases hw
  · intro h
    rw [← words_trimStart, h, words_nil]

theorem exists_of_words_eq_cons {cs : List Char} {w : String} {ws : List String}
    (h : words cs = w :: ws) :
    ∃ rest, trimStart cs = w.toList ++ rest ∧ (∀ c, rest.head? = some c → isBlank c = true) ∧
      words rest = ws := by
  have hne : trimStart cs ≠ [] := by
    intro hnil
    rw [words_eq_nil_iff.mpr hnil] at h
    cases h
  obtain ⟨v, rest, -, hcs, hrest, hv⟩ := exists_first_word hne
  rw [h] at hv
  cases hv
  exact ⟨rest, hcs, hrest, rfl⟩

theorem afterFirstWord_eq {cs rest : List Char} {w : String} (hw : IsWord w)
    (hcs : trimStart cs = w.toList ++ rest) (hr : ∀ c, rest.head? = some c → isBlank c = true) :
    afterFirstWord cs = trim rest := by
  have hall : ∀ c ∈ w.toList, (!isBlank c) = true := fun c hc => by simp [hw.2 c hc]
  have hdrop : (trimStart cs).dropWhile (fun c => !isBlank c) = rest := by
    rw [hcs, List.dropWhile_append_of_pos hall]
    cases rest with
    | nil => rfl
    | cons c rest => rw [List.dropWhile_cons_of_neg (by simp [hr c rfl])]
  rw [afterFirstWord, hdrop]

/-! ## Trimming longer texts -/

section Ends
variable {bs : List Char}

theorem trimEnd_eq_nil_iff {cs : List Char} :
    trimEnd cs = [] ↔ ∀ c ∈ cs, isBlank c = true := by
  rw [trimEnd_eq_rdropWhile, List.rdropWhile_eq_nil_iff]

theorem trimStart_eq_nil_iff {cs : List Char} :
    trimStart cs = [] ↔ ∀ c ∈ cs, isBlank c = true :=
  List.dropWhile_eq_nil_iff

theorem trimEnd_append_of_blank (hb : ∀ c ∈ bs, isBlank c = true) (cs : List Char) :
    trimEnd (cs ++ bs) = trimEnd cs := by
  induction cs with
  | nil =>
    rw [List.nil_append, trimEnd_eq_nil_iff.mpr hb]
    rfl
  | cons c cs ih => rw [List.cons_append, trimEnd, trimEnd, ih]

theorem trimEnd_append_of_last {cs : List Char} (hne : cs ≠ [])
    (hl : ∀ c, cs.getLast? = some c → isBlank c = false) (ds : List Char) :
    trimEnd (cs ++ ds) = cs ++ trimEnd ds := by
  induction cs with
  | nil => exact absurd rfl hne
  | cons c cs ih =>
    by_cases hnil : cs = []
    · subst hnil
      have hc : isBlank c = false := hl c rfl
      cases hd : trimEnd ds <;> simp [trimEnd, hd, hc]
    · have htail : trimEnd (cs ++ ds) = cs ++ trimEnd ds :=
        ih hnil fun d hd => hl d (by rw [List.getLast?_cons_of_ne_nil hnil, hd])
      rw [List.cons_append, trimEnd_cons_of_ne_nil (by simp [htail, hnil]), htail, List.cons_append]

theorem trimStart_append_of_head {cs : List Char} (hne : cs ≠ [])
    (hh : ∀ c, cs.head? = some c → isBlank c = false) (ds : List Char) :
    trimStart (cs ++ ds) = cs ++ ds := by
  refine trimStart_eq_self fun c hc => hh c ?_
  rwa [List.head?_append_of_ne_nil _ hne] at hc

theorem words_append_of_blank (hb : ∀ c ∈ bs, isBlank c = true) (cs : List Char) :
    words (cs ++ bs) = words cs := by
  cases bs with
  | nil => rw [List.append_nil]
  | cons c bs =>
    have htail : words bs = [] := by
      rw [words_eq_nil_iff, trimStart_eq_nil_iff]
      exact fun d hd => hb d (List.mem_cons_of_mem c hd)
    rw [words_append_blank (hb c List.mem_cons_self), htail, List.append_nil]

theorem exists_trimEnd_append (cs : List Char) :
    ∃ bs, cs = trimEnd cs ++ bs ∧ ∀ c ∈ bs, isBlank c = true := by
  obtain ⟨bs, hcs, hbs⟩ := trimEnd_append_blanks cs
  exact ⟨bs, hcs, List.all_eq_true.mp hbs⟩

theorem words_trimEnd (cs : List Char) : words (trimEnd cs) = words cs := by
  obtain ⟨bs, hcs, hbs⟩ := exists_trimEnd_append cs
  conv_rhs => rw [hcs, words_append_of_blank hbs]

theorem words_trim (cs : List Char) : words (trim cs) = words cs := by
  rw [trim, words_trimEnd, words_trimStart]

/-- A prefix that ends in no blank is not touched by trimming at the end. -/
theorem isPrefix_trimEnd {cs ds : List Char} (h : cs <+: ds)
    (hl : ∀ c, cs.getLast? = some c → isBlank c = false) : cs <+: trimEnd ds := by
  obtain ⟨es, rfl⟩ := h
  by_cases hne : cs = []
  · rw [hne]
    exact List.nil_prefix
  · rw [trimEnd_append_of_last hne hl]
    exact List.prefix_append _ _

theorem trimStart_append_of_ne_nil {cs : List Char} (h : trimStart cs ≠ []) (ds : List Char) :
    trimStart (cs ++ ds) = trimStart cs ++ ds := by
  have hempty : (cs.dropWhile isBlank).isEmpty = false := List.isEmpty_eq_false_iff.mpr h
  rw [trimStart, List.dropWhile_append, hempty, trimStart]
  rfl

theorem trimStart_append_of_eq_nil {cs : List Char} (h : trimStart cs = []) (ds : List Char) :
    trimStart (cs ++ ds) = trimStart ds :=
  trimStart_blanks_append (trimStart_eq_nil_iff.mp h) ds

theorem trim_append_of_blank (hb : ∀ c ∈ bs, isBlank c = true) (cs : List Char) :
    trim (cs ++ bs) = trim cs := by
  by_cases hnil : trimStart cs = []
  · have hbs : trimStart bs = [] := trimStart_eq_nil_iff.mpr hb
    rw [trim, trim, trimStart_append_of_eq_nil hnil, hnil, hbs]
  · rw [trim, trim, trimStart_append_of_ne_nil hnil, trimEnd_append_of_blank hb]

theorem trim_trimEnd (cs : List Char) : trim (trimEnd cs) = trim cs := by
  obtain ⟨bs, hcs, hbs⟩ := exists_trimEnd_append cs
  conv_rhs => rw [hcs, trim_append_of_blank hbs]

/-- It does not matter at which end the trimming begins. -/
theorem trimStart_trimEnd (cs : List Char) : trimStart (trimEnd cs) = trim cs := by
  rw [← trim_trimEnd, trim]
  refine (trimEnd_eq_self fun c hc => ?_).symm
  obtain ⟨bs, hbs, -⟩ := exists_blanks_append_trimStart (trimEnd cs)
  have hne : trimStart (trimEnd cs) ≠ [] := by
    intro hnil
    rw [hnil] at hc
    cases hc
  have hlast : (trimEnd cs).getLast? = some c := by
    rw [hbs, List.getLast?_append_of_ne_nil _ hne, hc]
  exact getLast?_trimEnd hlast

/-- What follows the first word, if blanks at the end have gone before. -/
theorem afterFirstWord_trimEnd {w : String} (hw : IsWord w) {cs : List Char}
    (hc : ∀ c, cs.head? = some c → isBlank c = true) :
    afterFirstWord (trimEnd (w.toList ++ cs)) = trim cs := by
  have hline : trimEnd (w.toList ++ cs) = w.toList ++ trimEnd cs :=
    trimEnd_append_of_last hw.toList_ne_nil hw.trimmed.2 cs
  have hstart : trimStart (w.toList ++ trimEnd cs) = w.toList ++ trimEnd cs :=
    trimStart_append_of_head hw.toList_ne_nil hw.trimmed.1 _
  rw [hline, afterFirstWord_eq hw hstart, trim_trimEnd]
  intro c hhead
  obtain ⟨ds, hds⟩ := List.head?_eq_some_iff.mp hhead
  obtain ⟨es, hes⟩ := trimEnd_isPrefix cs
  exact hc c (by rw [← hes, hds]; rfl)

end Ends

end ComposeGuards.Text
