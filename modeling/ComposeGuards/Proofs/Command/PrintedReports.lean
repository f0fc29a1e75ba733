import ComposeGuards.Command.Run
import ComposeGuards.Proofs.Guard.Reports
import ComposeGuards.Proofs.Json.Values
import ComposeGuards.Proofs.Listing.ReadTrees

/-! # What a run prints

A run that reports writes its entries one after another. As text, an entry is a line with the name of
the method, and below it a line for each finding and the count of the excluded instructions, or the
line that the method is not composable. As JSON, the whole output holds one array, with an object for
each entry. Either way the output says no more and no less than the entries.
-/
namespace ComposeGuards

/-- The line of a finding: the guard, the call, and the spans with both ends. -/
inductive Finding.PrintsAs : Finding → String → Prop
  | line {g : Guard} {name : String} {call : Nat} {spans : List Span}
      (named : (g, name) ∈
        [(.skip, "skip-guard"), (.scope, "scope-guard"), (.trace, "trace-guard")]) :
      PrintsAs ⟨g, call, spans⟩
        ("  " ++ name ++ " at #" ++ toString call ++ ": " ++ ", ".intercalate
          (spans.map fun s => "#" ++ toString s.first ++ "..=#" ++ toString s.last))

/-- The object of a finding. -/
inductive Finding.WritesAs : Finding → Json.Value → Prop
  | object {g : Guard} {key : String} {call : Nat} {spans : List Span}
      (keyed : (g, key) ∈
        [(.skip, "skip_guard"), (.scope, "scope_guard"), (.trace, "trace_guard")]) :
      WritesAs ⟨g, call, spans⟩
        (.object [("idiom", .text key), ("call", .natural call), ("ranges", .array
          (spans.map fun s => .object [("start", .natural s.first), ("end", .natural s.last)]))])

namespace MethodReport

/-- The lines of an entry. -/
inductive PrintsAs (r : MethodReport) : List String → Prop
  | composable {findings : List String} (composable : r.composable = true)
      (prints : List.Forall₂ Finding.PrintsAs r.findings findings) :
      PrintsAs r ((r.className ++ "." ++ r.method ++ r.desc) :: (findings ++
        ["  excluded " ++ toString r.excluded ++ "/" ++ toString r.instructions ++
          " instructions"]))
  | other (composable : r.composable = false) :
      PrintsAs r [r.className ++ "." ++ r.method ++ r.desc, "  not composable"]

/-- The object of an entry. -/
inductive WritesAs (r : MethodReport) : Json.Value → Prop
  | object {idioms : List Json.Value} (written : List.Forall₂ Finding.WritesAs r.findings idioms) :
      WritesAs r (.object
        [("class", .text r.className), ("method", .text r.method), ("desc", .text r.desc),
          ("eligible", .boolean r.composable), ("instructions", .natural r.instructions),
          ("excluded", .natural r.excluded), ("idioms", .array idioms), ("ranges", .array
            (r.spans.map fun s => .object [("start", .natural s.first), ("end", .natural s.last)]))])

/-- The output says what the entries say, in their order: as JSON, the array of their objects is the
one value that it holds; as text, its lines are the lines of the entries. -/
def Reported (asJson : Bool) (output : String) (rs : List MethodReport) : Prop :=
  if asJson then
    ∃ entries, List.Forall₂ WritesAs rs entries ∧
      ∀ v, Json.Holds output v ↔ v = .array entries
  else
    ∃ entries, List.Forall₂ PrintsAs rs entries ∧
      Text.lines output.toList = entries.flatten.map String.toList

end MethodReport

/-! ## Entries -/

theorem Finding.printsAs_line (f : Finding) : f.PrintsAs f.line := by
  obtain ⟨g, call, spans⟩ := f
  have hat : ∀ x : String, x ++ " at " ++ "#" = x ++ " at #" := fun x => String.append_assoc
  have hdots : ∀ x : String, x ++ "..=" ++ "#" = x ++ "..=#" := fun x => String.append_assoc
  have hspan : Span.text = fun s => "#" ++ toString s.first ++ "..=#" ++ toString s.last := by
    funext s
    simp only [Span.text, positionText, ← String.append_assoc, hdots]
  have hprints := @PrintsAs.line g g.name call spans (by cases g <;> simp [Guard.name])
  rw [Finding.line, Finding.title, positionText, hspan]
  simpa only [← String.append_assoc, hat] using hprints

theorem Finding.writesAs_json (f : Finding) : f.WritesAs f.json :=
  .object (by cases f.guard <;> simp [Guard.key])

theorem MethodReport.printsAs_lines (r : MethodReport) : r.PrintsAs r.lines := by
  unfold lines
  cases hc : r.composable with
  | true => exact .composable hc (forall₂_map_self Finding.printsAs_line r.findings)
  | false => exact .other hc

theorem MethodReport.writesAs_json (r : MethodReport) : r.WritesAs r.json :=
  .object (forall₂_map_self Finding.writesAs_json r.findings)

/-! ## Lines -/

namespace Text

/-- A text without line feeds and carriage returns. -/
def Unbroken (cs : List Char) : Prop :=
  ∀ c ∈ cs, c ≠ '\n' ∧ c ≠ '\r'

instance (cs : List Char) : Decidable (Unbroken cs) :=
  decidable_of_iff ((cs.all fun c => c != '\n' && c != '\r') = true) (by simp [Unbroken])

theorem unbroken_append {cs ds : List Char} :
    Unbroken (cs ++ ds) ↔ Unbroken cs ∧ Unbroken ds :=
  List.forall_mem_append

theorem Unbroken.isLine {cs : List Char} (h : Unbroken cs) : IsLine cs :=
  ⟨fun hmem => (h '\n' hmem).1 rfl, fun hlast => (h '\r' (List.mem_of_getLast? hlast)).2 rfl⟩

theorem unbroken_of_isWord {s : String} (h : IsWord s) : Unbroken s.toList := by
  intro c hc
  have hblank := h.2 c hc
  constructor
  · rintro rfl
    exact absurd hblank (by decide)
  · rintro rfl
    exact absurd hblank (by decide)

theorem unbroken_toString (n : Nat) : Unbroken (toString n).toList :=
  unbroken_of_isWord (isWord_toString n)

theorem unbroken_intercalate {sep : String} {items : List String} (hsep : Unbroken sep.toList)
    (h : ∀ item ∈ items, Unbroken item.toList) : Unbroken (sep.intercalate items).toList := by
  cases items with
  | nil => simp [Unbroken]
  | cons item items =>
    rw [toList_intercalate_cons, unbroken_append]
    refine ⟨h item List.mem_cons_self, ?_⟩
    intro c hc
    obtain ⟨i, hi, hc⟩ := List.mem_flatMap.mp hc
    exact unbroken_append.mpr ⟨hsep, h i (List.mem_cons_of_mem item hi)⟩ c hc

end Text

open Text

theorem Finding.unbroken_line (f : Finding) : Unbroken f.line.toList := by
  have hname : Unbroken f.guard.name.toList := by cases f.guard <;> decide
  have hspans : ∀ item ∈ f.spans.map Span.text, Unbroken item.toList := by
    intro item hitem
    obtain ⟨s, -, rfl⟩ := List.mem_map.mp hitem
    simp only [Span.text, positionText, String.toList_append, unbroken_append]
    exact ⟨⟨⟨by decide, unbroken_toString _⟩, by decide⟩, by decide, unbroken_toString _⟩
  simp only [Finding.line, Finding.title, positionText, String.toList_append, unbroken_append]
  exact ⟨⟨⟨by decide, ⟨hname, by decide⟩, by decide, unbroken_toString _⟩, by decide⟩,
    unbroken_intercalate (by decide) hspans⟩

theorem MethodReport.unbroken_lines {r : MethodReport} (hclass : IsWord r.className)
    (hmethod : IsWord r.method) (hdesc : IsWord r.desc) : ∀ l ∈ r.lines, Unbroken l.toList := by
  intro l hl
  rcases List.mem_cons.mp hl with rfl | hl
  · simp only [String.toList_append, unbroken_append]
    exact ⟨⟨⟨unbroken_of_isWord hclass, by decide⟩, unbroken_of_isWord hmethod⟩,
      unbroken_of_isWord hdesc⟩
  · split at hl
    · rcases List.mem_append.mp hl with hl | hl
      · obtain ⟨f, -, rfl⟩ := List.mem_map.mp hl
        exact f.unbroken_line
      · rw [List.mem_singleton.mp hl]
        simp only [String.toList_append, unbroken_append]
        exact ⟨⟨⟨⟨by decide, unbroken_toString _⟩, by decide⟩, unbroken_toString _⟩, by decide⟩
    · rw [List.mem_singleton.mp hl]
      decide

/-! ## Reports -/

/-- The names in an entry on an accepted listing are words. -/
theorem Settings.isWord_of_mem_report {text : String} {cs : List ClassUnit} {s : Settings}
    (hread : Listing.read text = .ok cs) {r : MethodReport} (hr : r ∈ s.report cs) :
    IsWord r.className ∧ IsWord r.method ∧ IsWord r.desc := by
  obtain ⟨c, hc, hr⟩ := List.mem_flatMap.mp hr
  obtain ⟨m, hm, rfl⟩ := List.mem_map.mp hr
  have htexts := (Listing.wellFormed_of_read hread c hc).texts
  exact ⟨htexts.name, (htexts.methods m hm).name, (htexts.methods m hm).desc⟩

theorem MethodReport.reported_jsonText (rs : List MethodReport) :
    Reported true (jsonText rs) rs := by
  refine ⟨rs.map json, forall₂_map_self writesAs_json rs, ?_⟩
  have hfeed : Json.Gap ['\n'] := by decide
  have hholds : Json.Holds (jsonText rs) (.array (rs.map json)) := by
    refine ⟨[], _, ['\n'], ?_, Json.gap_nil, hfeed, Json.spells_pretty 0 _⟩
    rw [jsonText, String.toList_append]
    rfl
  exact fun v => ⟨fun hv => hv.unique hholds, fun hv => hv ▸ hholds⟩

theorem MethodReport.reported_text {rs : List MethodReport}
    (hwords : ∀ r ∈ rs, IsWord r.className ∧ IsWord r.method ∧ IsWord r.desc) :
    Reported false (text rs) rs := by
  refine ⟨rs.map lines, forall₂_map_self printsAs_lines rs, ?_⟩
  rw [text, lines_unlines, List.flatMap_def]
  intro l hl
  obtain ⟨r, hr, hl⟩ := List.mem_flatMap.mp hl
  obtain ⟨hclass, hmethod, hdesc⟩ := hwords r hr
  exact (unbroken_lines hclass hmethod hdesc l hl).isLine

namespace Command

/-- A listing with a composable method that skips its body, and a method that is not composable. -/
def skippingListing : String :=
  Text.unlines
    [".class A kotlin", ".method m ()V",
      ".annotation invisible Landroidx/compose/runtime/Composable;",
      "  INVOKEINTERFACE androidx/compose/runtime/Composer.getSkipping ()Z (itf)",
      "  IFNE L1", "  RETURN", "L1", "  RETURN", ".end", ".method n ()V", "  RETURN", ".end"]

def skippingTree : List ClassUnit :=
  [⟨"A", true,
    [⟨"m", "()V", [], ["Landroidx/compose/runtime/Composable;"],
      [.call (.named .invokeinterface) Guard.skip.signature true, .jump (.named .ifne) 1,
        .plain (.named .returnVoid), .label 1, .plain (.named .returnVoid)]⟩,
      ⟨"n", "()V", [], [], [.plain (.named .returnVoid)]⟩]⟩]

/-- The listing under every path. -/
def skippingFiles : Files :=
  fun _ => .ok skippingListing

-- the lines of the two entries
example : (Settings.strict.report skippingTree).flatMap MethodReport.lines =
    ["A.m()V", "  skip-guard at #0: #0..=#1, #3..=#4", "  excluded 4/5 instructions", "A.n()V",
      "  not composable"] := by decide +kernel

end Command
end ComposeGuards
