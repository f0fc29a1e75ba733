import ComposeGuards.Text.Lines
import Mathlib.Data.List.Basic

/-! # Lines and line feeds

No line holds a line feed. A text that is written line by line is read back line by line, if no line
holds a line feed or ends in a carriage return.
-/
namespace ComposeGuards.Text

/-- A line that is read back after it is written with a line feed. -/
def IsLine (l : List Char) : Prop :=
  '\n' ∉ l ∧ l.getLast? ≠ some '\r'

instance (l : List Char) : Decidable (IsLine l) :=
  inferInstanceAs (Decidable (_ ∧ _))

theorem lines_append_lf {l : List Char} (h : IsLine l) (cs : List Char) :
    lines (l ++ '\n' :: cs) = l :: lines cs := by
  induction l with
  | nil => rfl
  | cons c l ih =>
    obtain ⟨hlf, hcr⟩ := h
    have hc : c ≠ '\n' := by rintro rfl; exact hlf List.mem_cons_self
    have hl : '\n' ∉ l := fun hmem => hlf (List.mem_cons_of_mem c hmem)
    have htail : lines (l ++ '\n' :: cs) = l :: lines cs := by
      refine ih ⟨hl, ?_⟩
      intro hlast
      cases l with
      | nil => cases hlast
      | cons d l => exact hcr (by rw [List.getLast?_cons_cons]; exact hlast)
    -- a carriage return is no line ending here, since no line feed follows it
    have hpair : ∀ rest, c = '\r' → l ++ '\n' :: cs = '\n' :: rest → False := by
      rintro rest rfl hrest
      cases l with
      | nil => exact hcr rfl
      | cons d l =>
        cases hrest
        exact hl List.mem_cons_self
    rw [List.cons_append, lines, htail]
    · exact hc
    · exact hpair

theorem lines_unlines {ls : List String} (h : ∀ l ∈ ls, IsLine l.toList) :
    lines (unlines ls).toList = ls.map String.toList := by
  have hflat : ∀ ks : List String, (unlines ks).toList = ks.flatMap fun k => k.toList ++ ['\n'] := by
    intro ks
    simp [unlines, String.toList_join, List.flatMap_map]
  rw [hflat]
  induction ls with
  | nil => rfl
  | cons l ls ih =>
    rw [List.flatMap_cons, List.append_assoc, List.singleton_append,
      lines_append_lf (h l List.mem_cons_self), ih fun k hk => h k (List.mem_cons_of_mem l hk)]
    rfl

theorem toList_intercalate_cons (sep item : String) (items : List String) :
    (sep.intercalate (item :: items)).toList =
      item.toList ++ items.flatMap fun i => sep.toList ++ i.toList := by
  induction items generalizing item with
  | nil => simp
  | cons i items ih =>
    rw [String.intercalate_cons_cons, String.toList_append, String.toList_append, ih,
      List.flatMap_cons, List.append_assoc, List.append_assoc]

theorem lf_not_mem_of_mem_lines {cs l : List Char} (h : l ∈ lines cs) : '\n' ∉ l := by
  fun_induction lines cs generalizing l with
  | case1 => cases h
  | case2 cs ih =>
    rcases List.mem_cons.mp h with rfl | h
    · exact List.not_mem_nil
    · exact ih h
  | case3 cs ih =>
    rcases List.mem_cons.mp h with rfl | h
    · exact List.not_mem_nil
    · exact ih h
  | case4 c cs hc _ hrest ih =>
    rw [List.mem_singleton.mp h]
    simpa using fun hlf : '\n' = c => hc hlf.symm
  | case5 c cs hc _ line rest hrest ih =>
    rcases List.mem_cons.mp h with rfl | h
    · have hline : '\n' ∉ line := ih (by rw [hrest]; exact List.mem_cons_self)
      intro hmem
      rcases List.mem_cons.mp hmem with hlf | hmem
      · exact hc hlf.symm
      · exact hline hmem
    · exact ih (by rw [hrest]; exact List.mem_cons_of_mem line h)

end ComposeGuards.Text
