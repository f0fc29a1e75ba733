import ComposeGuards.Proofs.Listing.RoundTrip

/-! # Reading, printing and reading again

A tree that was read has the named form of every opcode, so reading its printed form again gives an
equal tree only as the very same one. It does so exactly when no text of the tree is taken for a
comment where it is printed. Such a text can be read: a marker after a tab starts no comment, while
the printed form puts a space before it.
-/
namespace ComposeGuards.Listing
open ComposeGuards.Text

theorem eq_of_sameAll_of_read {text text' : String} {cs ds : List ClassUnit}
    (hc : read text = .ok cs) (hd : read text' = .ok ds) (hsame : ClassUnit.sameAll ds cs = true) :
    ds = cs := by
  have hcs : cs.map ClassUnit.normalize = cs :=
    (List.map_congr_left (normalize_eq_of_read hc)).trans (List.map_id cs)
  have hds : ds.map ClassUnit.normalize = ds :=
    (List.map_congr_left (normalize_eq_of_read hd)).trans (List.map_id ds)
  rw [← hcs, ← hds]
  exact sameAll_iff.mp hsame

theorem printable_iff_markerFree_of_read {text : String} {cs : List ClassUnit}
    (h : read text = .ok cs) : (∀ c ∈ cs, c.Printable) ↔ ∀ c ∈ cs, c.MarkerFree := by
  have hwf := wellFormed_of_read h
  constructor
  · intro hp c hc
    exact (ClassUnit.printable_iff.mp (hp c hc)).2
  · intro hfree c hc
    exact ClassUnit.printable_iff.mpr ⟨hwf c hc, hfree c hc⟩

/-- What was read is read again from its printed form exactly when no text of it is taken for a
comment there, and an equal tree is then the same one. -/
theorem read_again_iff_markerFree {text : String} {cs : List ClassUnit} (h : read text = .ok cs) :
    ((∃ ds, read (print cs) = .ok ds ∧ ClassUnit.sameAll ds cs = true) ↔
        ∀ c ∈ cs, c.MarkerFree) ∧
      ((∀ c ∈ cs, c.MarkerFree) → read (print cs) = .ok cs) := by
  rw [← printable_iff_markerFree_of_read h]
  refine ⟨⟨?_, exists_same_of_printable⟩, ?_⟩
  · rintro ⟨ds, hread, hsame⟩
    exact printable_of_same hread hsame
  · intro hp
    obtain ⟨ds, hread, hsame⟩ := exists_same_of_printable hp
    rw [hread, eq_of_sameAll_of_read h hread hsame]

/-- A marker inside a literal stays, and a comment after it goes, whatever blank is before it. -/
theorem read_again_quoted_constant :
    read ".class\tA\n.method m ()V\n  LDC \"a # b\"\t# c\n.end\n" =
        .ok [⟨"A", false, [⟨"m", "()V", [], [], [.constant "\"a # b\""]⟩]⟩] ∧
      read (print [⟨"A", false, [⟨"m", "()V", [], [], [.constant "\"a # b\""]⟩]⟩]) =
        .ok [⟨"A", false, [⟨"m", "()V", [], [], [.constant "\"a # b\""]⟩]⟩] := by
  have hread : read ".class\tA\n.method m ()V\n  LDC \"a # b\"\t# c\n.end\n" =
      .ok [⟨"A", false, [⟨"m", "()V", [], [], [.constant "\"a # b\""]⟩]⟩] := by rfl
  exact ⟨hread, (read_again_iff_markerFree hread).2 (by decide)⟩

/-- After a tab no comment starts, but the printed form puts a space there. -/
theorem not_read_again_constant_after_tab :
    ¬ ∀ (text : String) (cs : List ClassUnit), read text = .ok cs →
      ∃ ds, read (print cs) = .ok ds ∧ ClassUnit.sameAll ds cs = true := by
  intro h
  have hread : read ".class A\n.method m ()V\n  LDC\t#x\n.end\n" =
      .ok [⟨"A", false, [⟨"m", "()V", [], [], [.constant "#x"]⟩]⟩] := by rfl
  obtain ⟨ds, hds, hsame⟩ := h _ _ hread
  exact absurd (printable_of_same hds hsame) (by decide)

end ComposeGuards.Listing
