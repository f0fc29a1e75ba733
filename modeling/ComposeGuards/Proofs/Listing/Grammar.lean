import ComposeGuards.Proofs.Listing.Steps
import Mathlib.Data.List.Forall2
import Mathlib.Data.List.Nodup

/-! # The grammar of listings

A listing is a sequence of classes, a class its header and a sequence of methods, a method its
header, any mix of annotations and instructions, and its end. The grammar says which lines make up a
tree of classes. A run of accepted lines from the empty progress leads to the point after a tree
exactly when the grammar gives that tree, so reading accepts the grammar and builds its tree.
-/
namespace ComposeGuards.Listing
open ComposeGuards.Text

def Entry.annotated? (retention : Retention) : Entry → Option String
  | annotated r desc => if r = retention then some desc else none
  | instruction _ => none

def Entry.instruction? : Entry → Option Instruction
  | annotated _ _ => none
  | instruction i => some i

/-- The method that a header and the entries after it describe. -/
def methodOf (name desc : String) (es : List Entry) : Method where
  name := name
  desc := desc
  visible := es.filterMap (Entry.annotated? .visible)
  invisible := es.filterMap (Entry.annotated? .invisible)
  body := es.filterMap Entry.instruction?

/-- The lines of a method, whose labels must be bound. -/
inductive IsMethod : List (List Char) → Method → Prop
  | lines {first last : List Char} {name desc : String} {extra extra' : List String}
      {ls : List (List Char)} {es : List Entry}
      (header : words first = ".method" :: name :: desc :: extra)
      (entries : List.Forall₂ IsEntry ls es)
      (labels : (methodOf name desc es).body.LabelsBound)
      (ending : words last = ".end" :: extra') :
      IsMethod (first :: (ls ++ [last])) (methodOf name desc es)

/-- The lines of a class. -/
inductive IsClass : List (List Char) → ClassUnit → Prop
  | plain {first : List Char} {name : String} {blocks : List (List (List Char))}
      {ms : List Method} (header : words first = [".class", name])
      (methods : List.Forall₂ IsMethod blocks ms) :
      IsClass (first :: blocks.flatten) ⟨name, false, ms⟩
  | kotlin {first : List Char} {name : String} {extra : List String}
      {blocks : List (List (List Char))} {ms : List Method}
      (header : words first = ".class" :: name :: "kotlin" :: extra)
      (methods : List.Forall₂ IsMethod blocks ms) :
      IsClass (first :: blocks.flatten) ⟨name, true, ms⟩

/-- The lines of a listing. -/
def IsListing (ls : List (List Char)) (cs : List ClassUnit) : Prop :=
  ∃ blocks : List (List (List Char)), ls = blocks.flatten ∧ List.Forall₂ IsClass blocks cs

/-! ## Entries one after another -/

theorem methodOf_append_singleton (name desc : String) (es : List Entry) (e : Entry) :
    methodOf name desc (es ++ [e]) = addEntry (methodOf name desc es) e := by
  cases e with
  | annotated r d =>
    cases r <;> simp [methodOf, addEntry, Method.annotate, Entry.annotated?, Entry.instruction?]
  | instruction i => simp [methodOf, addEntry, Entry.annotated?, Entry.instruction?]

theorem definedLabels_addEntry (m : Method) (e : Entry) :
    (addEntry m e).body.definedLabels = m.body.definedLabels ++ e.defines?.toList := by
  cases e with
  | annotated r d => cases r <;> simp [addEntry, Method.annotate, Entry.defines?]
  | instruction i =>
    cases hd : i.defines? <;>
      simp [addEntry, Entry.defines?, Body.definedLabels, hd]

theorem nodup_definedLabels_addEntry {m : Method} {e : Entry} :
    (addEntry m e).body.definedLabels.Nodup ↔
      m.body.definedLabels.Nodup ∧ ∀ l ∈ e.defines?, l ∉ m.body.definedLabels := by
  rw [definedLabels_addEntry]
  cases e.defines? with
  | none => simp
  | some l =>
    simp only [Option.toList_some, List.nodup_append, List.nodup_singleton, List.mem_singleton,
      true_and, Option.mem_def, Option.some.injEq, forall_eq']
    constructor
    · rintro ⟨hm, hl⟩
      exact ⟨hm, fun hmem => hl l hmem l rfl rfl⟩
    · rintro ⟨hm, hl⟩
      refine ⟨hm, ?_⟩
      rintro k hk _ rfl rfl
      exact hl hk

theorem attach_append_singleton (m : Method) (cs : List ClassUnit) (c : ClassUnit) :
    attach m (cs ++ [c]) = cs ++ [{ c with methods := c.methods ++ [m] }] := by
  induction cs with
  | nil => rfl
  | cons d cs ih =>
    cases cs with
    | nil => rfl
    | cons b cs =>
      rw [List.cons_append, List.cons_append, attach, ← List.cons_append, ih]
      · rfl
      · simp

/-! ## From the grammar to a run -/

theorem nodup_definedLabels_of_append {name desc : String} {es es' : List Entry}
    (h : (methodOf name desc (es ++ es')).body.definedLabels.Nodup) :
    (methodOf name desc es).body.definedLabels.Nodup := by
  simp only [methodOf, Body.definedLabels, List.filterMap_append] at h ⊢
  exact (List.nodup_append.mp h).1

theorem runs_entries {cs : List ClassUnit} {name desc : String} {ls : List (List Char)}
    {es before : List Entry} (h : List.Forall₂ IsEntry ls es)
    (hnodup : (methodOf name desc (before ++ es)).body.definedLabels.Nodup) :
    Runs ⟨cs, some (methodOf name desc before)⟩ ls
      ⟨cs, some (methodOf name desc (before ++ es))⟩ := by
  induction h generalizing before with
  | nil => rw [List.append_nil]; exact .done
  | @cons line e ls es he _ ih =>
    rw [List.append_cons] at hnodup ⊢
    have hadd := nodup_definedLabels_of_append hnodup
    rw [methodOf_append_singleton, nodup_definedLabels_addEntry] at hadd
    have hfirst : Advances line ⟨cs, some (methodOf name desc before)⟩
        ⟨cs, some (methodOf name desc (before ++ [e]))⟩ := by
      rw [methodOf_append_singleton]
      exact .entry he hadd.2
    exact .line hfirst (ih hnodup)

theorem runs_method {cs : List ClassUnit} {c : ClassUnit} {ls : List (List Char)} {m : Method}
    (h : IsMethod ls m) :
    Runs ⟨cs ++ [c], none⟩ ls ⟨cs ++ [{ c with methods := c.methods ++ [m] }], none⟩ := by
  cases h with
  | @lines first last name desc extra extra' ls es header entries labels ending =>
    have hentries : Runs ⟨cs ++ [c], some (methodOf name desc [])⟩ ls
        ⟨cs ++ [c], some (methodOf name desc es)⟩ := runs_entries entries labels.once
    have hend : Advances last ⟨cs ++ [c], some (methodOf name desc es)⟩
        ⟨attach (methodOf name desc es) (cs ++ [c]), none⟩ := .methodEnd ending labels.defined
    rw [attach_append_singleton] at hend
    exact .line (.methodHeader header (by simp)) (hentries.append (.single hend))

theorem runs_methods {cs : List ClassUnit} {c : ClassUnit} {blocks : List (List (List Char))}
    {ms : List Method} (h : List.Forall₂ IsMethod blocks ms) :
    Runs ⟨cs ++ [c], none⟩ blocks.flatten
      ⟨cs ++ [{ c with methods := c.methods ++ ms }], none⟩ := by
  induction h generalizing c with
  | nil => rw [List.append_nil]; exact .done
  | @cons ls m blocks ms hm _ ih =>
    have hrest := ih (c := { c with methods := c.methods ++ [m] })
    rw [List.append_cons c.methods m ms]
    exact (runs_method hm).append hrest

theorem runs_class {cs : List ClassUnit} {c : ClassUnit} {ls : List (List Char)}
    (h : IsClass ls c) : Runs ⟨cs, none⟩ ls ⟨cs ++ [c], none⟩ := by
  cases h with
  | plain header methods => exact .line (.classHeader header) (runs_methods methods)
  | kotlin header methods => exact .line (.kotlinHeader header) (runs_methods methods)

theorem runs_listing {before cs : List ClassUnit} {ls : List (List Char)} (h : IsListing ls cs) :
    Runs ⟨before, none⟩ ls ⟨before ++ cs, none⟩ := by
  obtain ⟨blocks, rfl, hblocks⟩ := h
  induction hblocks generalizing before with
  | nil => rw [List.append_nil]; exact .done
  | @cons ls c blocks cs hc _ ih =>
    rw [List.append_cons]
    exact (runs_class hc).append ih

/-! ## From a run to the grammar -/

/-- What the lines so far are, between methods and inside one. -/
inductive Reached : List (List Char) → Progress → Prop
  | between {ls : List (List Char)} {cs : List ClassUnit} (listing : IsListing ls cs) :
      Reached ls ⟨cs, none⟩
  | inside {ls body : List (List Char)} {first : List Char} {cs : List ClassUnit}
      {name desc : String} {extra : List String} {es : List Entry} (listing : IsListing ls cs)
      (inClass : cs ≠ []) (header : words first = ".method" :: name :: desc :: extra)
      (entries : List.Forall₂ IsEntry body es)
      (once : (methodOf name desc es).body.definedLabels.Nodup) :
      Reached (ls ++ first :: body) ⟨cs, some (methodOf name desc es)⟩

theorem IsListing.append {ls ls' : List (List Char)} {cs cs' : List ClassUnit}
    (h : IsListing ls cs) (h' : IsListing ls' cs') : IsListing (ls ++ ls') (cs ++ cs') := by
  obtain ⟨blocks, rfl, hblocks⟩ := h
  obtain ⟨blocks', rfl, hblocks'⟩ := h'
  exact ⟨blocks ++ blocks', by rw [List.flatten_append], List.rel_append hblocks hblocks'⟩

theorem IsClass.isListing {ls : List (List Char)} {c : ClassUnit} (h : IsClass ls c) :
    IsListing ls [c] := ⟨[ls], by simp, .cons h .nil⟩

theorem IsClass.append {ls ls' : List (List Char)} {c : ClassUnit} {m : Method}
    (h : IsClass ls c) (h' : IsMethod ls' m) :
    IsClass (ls ++ ls') { c with methods := c.methods ++ [m] } := by
  cases h with
  | @plain first name blocks ms header methods =>
    have := IsClass.plain header (List.rel_append methods (.cons h' .nil))
    simpa using this
  | @kotlin first name extra blocks ms header methods =>
    have := IsClass.kotlin header (List.rel_append methods (.cons h' .nil))
    simpa using this

/-- A method extends the last class. -/
theorem IsListing.attach {ls ls' : List (List Char)} {cs : List ClassUnit} {m : Method}
    (h : IsListing ls cs) (hne : cs ≠ []) (h' : IsMethod ls' m) :
    IsListing (ls ++ ls') (Listing.attach m cs) := by
  obtain ⟨blocks, rfl, hblocks⟩ := h
  induction hblocks with
  | nil => exact absurd rfl hne
  | @cons block c blocks cs hc hrest ih =>
    rw [List.flatten_cons, List.append_assoc]
    cases cs with
    | nil =>
      rw [List.forall₂_nil_right_iff] at hrest
      subst hrest
      exact (hc.append h').isListing
    | cons d cs => exact hc.isListing.append (ih (List.cons_ne_nil d cs))

theorem Reached.step {ls : List (List Char)} {line : List Char} {p q : Progress}
    (h : Reached ls p) (ha : Advances line p q) : Reached (ls ++ [line]) q := by
  cases ha with
  | classHeader words =>
    cases h with
    | between listing => exact .between (listing.append (IsClass.plain words .nil).isListing)
  | kotlinHeader words =>
    cases h with
    | between listing => exact .between (listing.append (IsClass.kotlin words .nil).isListing)
  | methodHeader words inClass =>
    cases h with
    | between listing => exact .inside listing inClass words .nil List.nodup_nil
  | @entry cs m e entry fresh =>
    cases h with
    | @inside ls body first _ name desc extra es listing inClass header entries once =>
      rw [List.append_assoc, List.cons_append, ← methodOf_append_singleton]
      refine .inside listing inClass header (List.rel_append entries (.cons entry .nil)) ?_
      rw [methodOf_append_singleton, nodup_definedLabels_addEntry]
      exact ⟨once, fresh⟩
  | methodEnd words defined =>
    cases h with
    | @inside ls body first _ name desc extra es listing inClass header entries once =>
      rw [List.append_assoc, List.cons_append]
      exact .between (listing.attach inClass (.lines header entries ⟨once, defined⟩ words))

theorem Reached.runs {done ls : List (List Char)} {p q : Progress} (h : Reached done p)
    (hr : Runs p ls q) : Reached (done ++ ls) q := by
  induction hr generalizing done with
  | done => rw [List.append_nil]; exact h
  | line first _ ih =>
    rw [List.append_cons]
    exact ih (h.step first)

theorem reached_of_runs {ls : List (List Char)} {p : Progress} (h : Runs {} ls p) :
    Reached ls p := by
  have hstart : Reached [] {} := .between ⟨[], rfl, .nil⟩
  exact hstart.runs h

theorem runs_iff_isListing {ls : List (List Char)} {cs : List ClassUnit} :
    Runs {} ls ⟨cs, none⟩ ↔ IsListing ls cs := by
  constructor
  · intro h
    cases reached_of_runs h with
    | between listing => exact listing
  · intro h
    have hruns : Runs ⟨[], none⟩ ls ⟨[] ++ cs, none⟩ := runs_listing h
    exact hruns

theorem read_eq_ok_iff_isListing {text : String} {cs : List ClassUnit} :
    read text = .ok cs ↔ IsListing (significant (lines text.toList)) cs := by
  rw [read_eq_ok_iff, runs_iff_isListing]

/-- Reading accepts a text exactly when its lines, without comments and without those that hold
nothing else, form a listing, and what it reads is the tree of that listing. -/
theorem read_accepts_grammar (text : String) (cs : List ClassUnit) :
    read text = .ok cs ↔
      IsListing (((lines text.toList).map uncommented).filter fun line => !line.isEmpty) cs :=
  read_eq_ok_iff_isListing

end ComposeGuards.Listing
