import ComposeGuards.Proofs.Command.Strictness

/-! # One flag more among the arguments

The flag `--strict` may stand anywhere after the command, before `--` and not right after
`--config`, which would take it for a missing value. There it changes one thing: the options that
are read say so. Taking over a pending value a little earlier, which the flag does as every option
does, changes nothing.
-/
namespace ComposeGuards.Command
open Listing (bind_eq_ok_iff)

theorem eq_of_formOf_long {arg name : String} (h : formOf arg = .long name none) :
    arg = "--" ++ name := by
  unfold formOf at h
  split at h
  · cases h
  · next cs _ harg =>
    split at h
    · next hdrop =>
      cases h
      have hall : cs.takeWhile (fun c => decide (c ≠ '=')) = cs :=
        List.takeWhile_eq_self_iff.mpr (List.dropWhile_eq_nil_iff.mp hdrop)
      rw [hall, ← String.toList_inj, harg]
      simp
    · cases h
  · cases h
  · cases h

namespace Given

/-- The same with the flag given or not. -/
def setStrict (strict : Bool) (g : Given) : Given :=
  { g with options := { g.options with strict } }

/-- Takes one argument that is not `--`, where options are still read. -/
def takeOne (flags : List Flag) (g : Given) (arg : String) : Except UsageError Given :=
  match formOf arg with
  | .escape => .ok g
  | .long name value => g.setLong flags name value
  | .short letter =>
    if letter = 'h' then do (← g.settle).setFlag .help else .error .unknownArgument
  | .value text => g.setValue text

section
variable {flags : List Flag} {g g' s h : Given} {arg : String} {args : List String}

theorem take_escape (g : Given) (args : List String) :
    g.take flags false ("--" :: args) = g.take flags true args := by
  have hform : formOf "--" = .escape := by decide +kernel
  simp [take, hform]

theorem take_escaped (g : Given) (arg : String) (args : List String) :
    g.take flags true (arg :: args) = g.setInput arg >>= fun g' => g'.take flags true args := by
  simp [take]

theorem take_cons (harg : arg ≠ "--") (g : Given) (args : List String) :
    g.take flags false (arg :: args) =
      g.takeOne flags arg >>= fun g' => g'.take flags false args := by
  unfold takeOne
  cases hform : formOf arg with
  | escape => exact absurd (eq_escape_of_formOf hform) harg
  | long name value => simp [take, hform]
  | short letter =>
    by_cases hletter : letter = 'h'
    · subst hletter
      simp [take, hform]
    · simp only [if_neg hletter]
      simp [take, hform, bind, Except.bind]
  | value text => simp [take, hform]

/-- Arguments before `--` are taken one after another. -/
theorem take_append {xs : List String} (hxs : "--" ∉ xs) (g : Given) (ys : List String) :
    g.take flags false (xs ++ ys) =
      xs.foldlM (takeOne flags) g >>= fun g' => g'.take flags false ys := by
  induction xs generalizing g with
  | nil => rfl
  | cons arg xs ih =>
    have harg : arg ≠ "--" := fun heq => hxs (by rw [heq]; exact List.mem_cons_self)
    rw [List.cons_append, take_cons harg, List.foldlM_cons, bind_assoc]
    congr 1
    funext g'
    exact ih (fun hmem => hxs (List.mem_cons_of_mem arg hmem)) g'

/-! ## Taking a value over earlier -/

theorem settle_of_pending (hp : g.pending = none) : g.settle = .ok g := by
  simp [settle, hp]

theorem settle_settle (hs : g.settle = .ok s) : s.settle = .ok s :=
  settle_of_pending (input_settle hs).2

theorem setInput_of_settle (hs : g.settle = .ok s) (path : String) :
    s.setInput path = g.setInput path := by
  simp only [setInput, hasInput_settle hs, settle_settle hs, hs]

theorem pending_of_settle (hs : g.settle = .ok s) : g.pending ≠ some (.config none) := by
  intro hp
  simp [settle, hp] at hs

theorem setValue_of_pending (hp : g.pending ≠ some (.config none)) (text : String) :
    g.setValue text = g.setInput text := by
  unfold setValue
  split
  · next hnone => exact absurd hnone hp
  · rfl

theorem setValue_of_settle (hs : g.settle = .ok s) (text : String) :
    s.setValue text = g.setValue text := by
  have hp : s.pending ≠ some (.config none) := by simp [(input_settle hs).2]
  rw [setValue_of_pending hp, setValue_of_pending (pending_of_settle hs), setInput_of_settle hs]

theorem setLong_of_settle (hs : g.settle = .ok s) (name : String) (value : Option String) :
    s.setLong flags name value = g.setLong flags name value := by
  simp only [setLong, settle_settle hs, hs]

theorem takeOne_of_settle (hs : g.settle = .ok s) (arg : String) (harg : arg ≠ "--") :
    s.takeOne flags arg = g.takeOne flags arg := by
  unfold takeOne
  cases hform : formOf arg with
  | escape => exact absurd (eq_escape_of_formOf hform) harg
  | long name value => exact setLong_of_settle hs name value
  | short letter => simp only [settle_settle hs, hs]
  | value text => exact setValue_of_settle hs text

theorem take_of_settle (hs : g.settle = .ok s) (escaped : Bool) (args : List String) :
    s.take flags escaped args = g.take flags escaped args := by
  induction args generalizing escaped with
  | nil => simp only [take, settle_settle hs, hs]
  | cons arg args ih =>
    cases escaped with
    | true => rw [take_escaped, take_escaped, setInput_of_settle hs]
    | false =>
      by_cases harg : arg = "--"
      · rw [harg, take_escape, take_escape, ih]
      · rw [take_cons harg, take_cons harg, takeOne_of_settle hs arg harg]

theorem exists_settle_of_setInput {path : String} (h : g.setInput path = .ok g') :
    ∃ s, g.settle = .ok s := by
  unfold setInput at h
  split at h
  · cases h
  · obtain ⟨s, hs, -⟩ := bind_eq_ok_iff.mp h
    exact ⟨s, hs⟩

theorem exists_settle_of_setLong {name : String} {value : Option String}
    (h : g.setLong flags name value = .ok g') : ∃ s, g.settle = .ok s := by
  unfold setLong at h
  split at h
  · cases h
  · obtain ⟨s, hs, -⟩ := bind_eq_ok_iff.mp h
    exact ⟨s, hs⟩
  · obtain ⟨s, hs, -⟩ := bind_eq_ok_iff.mp h
    exact ⟨s, hs⟩
  · cases h

theorem exists_settle_of_takeOne (hp : g.pending ≠ some (.config none)) (harg : arg ≠ "--")
    (h : g.takeOne flags arg = .ok g') : ∃ s, g.settle = .ok s := by
  unfold takeOne at h
  split at h
  · next hform => exact absurd (eq_escape_of_formOf hform) harg
  · exact exists_settle_of_setLong h
  · split at h
    · obtain ⟨s, hs, -⟩ := bind_eq_ok_iff.mp h
      exact ⟨s, hs⟩
    · cases h
  · rw [setValue_of_pending hp] at h
    exact exists_settle_of_setInput h

/-- What is pending before accepted arguments can be taken over at once, unless it is an option
without its value. -/
theorem exists_settle_of_take {escaped : Bool} (hp : g.pending ≠ some (.config none))
    (ht : g.take flags escaped args = .ok h) : ∃ s, g.settle = .ok s := by
  induction args generalizing escaped with
  | nil => exact ⟨h, ht⟩
  | cons arg args ih =>
    cases escaped with
    | true =>
      rw [take_escaped] at ht
      obtain ⟨g', hset, -⟩ := bind_eq_ok_iff.mp ht
      exact exists_settle_of_setInput hset
    | false =>
      by_cases harg : arg = "--"
      · rw [harg, take_escape] at ht
        exact ih ht
      · rw [take_cons harg] at ht
        obtain ⟨g', hone, -⟩ := bind_eq_ok_iff.mp ht
        exact exists_settle_of_takeOne hp harg hone

/-! ## The flag among the options -/

/-- An operation that neither looks at the flag nor gives it. -/
def LeavesStrict (op : Given → Except UsageError Given) : Prop :=
  ∀ g strict, op (g.setStrict strict) = (op g).map (setStrict strict)

theorem LeavesStrict.strict_eq {op : Given → Except UsageError Given} (hop : LeavesStrict op)
    {g g' : Given} (h : op g = .ok g') : g'.options.strict = g.options.strict := by
  have hsame := hop g g.options.strict
  rw [show g.setStrict g.options.strict = g from rfl, h] at hsame
  exact congrArg (fun g => g.options.strict) (Except.ok.inj hsame)

theorem LeavesStrict.bind {op op' : Given → Except UsageError Given} (hop : LeavesStrict op)
    (hop' : LeavesStrict op') : LeavesStrict fun g => op g >>= op' := by
  intro g strict
  simp only [hop g strict]
  cases op g with
  | error e => rfl
  | ok s => exact hop' s strict

theorem leavesStrict_error (e : UsageError) : LeavesStrict fun _ => .error e :=
  fun _ _ => rfl

theorem leavesStrict_setConfig (path : String) : LeavesStrict (·.setConfig path) := by
  intro g strict
  by_cases hgiven : g.options.config.isSome = true
  · simp [setConfig, setStrict, hgiven, Except.map]
  · by_cases hempty : path.isEmpty = true <;>
      simp [setConfig, setStrict, hgiven, hempty, Except.map]

theorem leavesStrict_settle : LeavesStrict settle := by
  intro g strict
  have hp : (g.setStrict strict).pending = g.pending := rfl
  unfold settle
  rw [hp]
  cases g.pending with
  | none => rfl
  | some pending =>
    cases pending with
    | input path => by_cases hempty : path.isEmpty = true <;> simp [hempty, setStrict, Except.map]
    | config path? =>
      cases path? with
      | none => rfl
      | some path => exact leavesStrict_setConfig path g strict

theorem leavesStrict_setInput (path : String) : LeavesStrict (·.setInput path) := by
  intro g strict
  have hinput : (g.setStrict strict).hasInput = g.hasInput := rfl
  simp only [setInput, hinput, leavesStrict_settle g strict]
  cases g.hasInput with
  | true => rfl
  | false => cases g.settle <;> rfl

theorem leavesStrict_setValue (text : String) : LeavesStrict (·.setValue text) := by
  intro g strict
  by_cases hp : g.pending = some (.config none)
  · have hp' : (g.setStrict strict).pending = some (.config none) := hp
    simp only [setValue, hp, hp']
    rfl
  · have hp' : (g.setStrict strict).pending ≠ some (.config none) := hp
    simp only [setValue_of_pending hp, setValue_of_pending hp']
    exact leavesStrict_setInput text g strict

theorem leavesStrict_setFlag {f : Flag} (hf : f ≠ .strict) : LeavesStrict (·.setFlag f) := by
  intro g strict
  cases f with
  | help => rfl
  | strict => exact absurd rfl hf
  | json => cases hjson : g.options.json <;> simp [setFlag, setStrict, hjson, Except.map]
  | config => rfl

theorem leavesStrict_setLong {name : String} {value : Option String}
    (h : value = none → name ≠ Flag.strict.name) :
    LeavesStrict (·.setLong flags name value) := by
  unfold setLong
  cases hf : flags.find? fun f => f.name = name with
  | none => exact leavesStrict_error _
  | some f =>
    cases value with
    | none =>
      have hname : f.name = name := by simpa using List.find?_some hf
      have hne : f ≠ .strict := by
        rintro rfl
        exact h rfl hname.symm
      have hflag := leavesStrict_settle.bind (leavesStrict_setFlag hne)
      cases f <;> exact hflag
    | some text =>
      cases f with
      | config => exact leavesStrict_settle.bind (leavesStrict_setConfig text)
      | _ => exact leavesStrict_error _

/-- No other argument looks at the flag or gives it. -/
theorem leavesStrict_takeOne (harg : arg ≠ "--strict") :
    LeavesStrict (·.takeOne flags arg) := by
  unfold takeOne
  cases hform : formOf arg with
  | escape => exact fun _ _ => rfl
  | long name value =>
    refine leavesStrict_setLong ?_
    rintro rfl hname
    rw [hname] at hform
    exact harg (eq_of_formOf_long hform)
  | short letter =>
    by_cases hletter : letter = 'h'
    · simp only [hletter, if_true]
      exact leavesStrict_settle.bind (leavesStrict_setFlag (by decide))
    · simp only [if_neg hletter]
      exact leavesStrict_error _
  | value text => exact leavesStrict_setValue text

theorem setFlag_strict_eq_ok_iff :
    g.setFlag .strict = .ok g' ↔ g.options.strict = false ∧ g' = g.setStrict true := by
  cases hstrict : g.options.strict <;> simp [setFlag, hstrict, setStrict, eq_comm]

theorem takeOne_strict (g : Given) :
    g.takeOne Name.filter.flags "--strict" = g.settle >>= fun s => s.setFlag .strict := by
  simp only [takeOne, formOf_strict]
  rfl

theorem strict_takeOne (h : g.takeOne Name.filter.flags arg = .ok g') :
    g'.options.strict = (g.options.strict || decide (arg = "--strict")) := by
  by_cases harg : arg = "--strict"
  · rw [harg, takeOne_strict] at h
    obtain ⟨s, -, hflag⟩ := bind_eq_ok_iff.mp h
    rw [(setFlag_strict_eq_ok_iff.mp hflag).2]
    simp [setStrict, harg]
  · rw [(leavesStrict_takeOne harg).strict_eq h]
    simp [harg]

/-- The flag is given once, and among the options. -/
theorem strict_take {escaped : Bool} (ht : g.take Name.filter.flags escaped args = .ok h)
    (hstrict : h.options.strict = true) (hg : g.options.strict = false) :
    ∃ xs ys, escaped = false ∧ args = xs ++ "--strict" :: ys ∧ "--" ∉ xs := by
  induction args generalizing g escaped with
  | nil => rw [leavesStrict_settle.strict_eq ht, hg] at hstrict; cases hstrict
  | cons arg args ih =>
    cases escaped with
    | true =>
      rw [take_escaped] at ht
      obtain ⟨g', hset, ht⟩ := bind_eq_ok_iff.mp ht
      have hg' := (leavesStrict_setInput arg).strict_eq hset
      obtain ⟨xs, ys, hfalse, -⟩ := ih ht (hg'.trans hg)
      cases hfalse
    | false =>
      by_cases hescape : arg = "--"
      · rw [hescape, take_escape] at ht
        obtain ⟨xs, ys, hfalse, -⟩ := ih ht hg
        cases hfalse
      · rw [take_cons hescape] at ht
        obtain ⟨g', hone, ht⟩ := bind_eq_ok_iff.mp ht
        by_cases harg : arg = "--strict"
        · exact ⟨[], args, rfl, by rw [harg]; rfl, List.not_mem_nil⟩
        · have hg' : g'.options.strict = false := by simp [strict_takeOne hone, hg, harg]
          obtain ⟨xs, ys, -, rfl, hxs⟩ := ih ht hg'
          refine ⟨arg :: xs, ys, rfl, rfl, ?_⟩
          simp [Ne.symm hescape, hxs]

/-- Once given, the flag stays given. -/
theorem strict_of_take {escaped : Bool} (ht : g.take Name.filter.flags escaped args = .ok h)
    (hg : g.options.strict = true) : h.options.strict = true := by
  induction args generalizing g escaped with
  | nil => exact (leavesStrict_settle.strict_eq ht).trans hg
  | cons arg args ih =>
    cases escaped with
    | true =>
      rw [take_escaped] at ht
      obtain ⟨g', hset, ht⟩ := bind_eq_ok_iff.mp ht
      exact ih ht (((leavesStrict_setInput arg).strict_eq hset).trans hg)
    | false =>
      by_cases hescape : arg = "--"
      · rw [hescape, take_escape] at ht
        exact ih ht hg
      · rw [take_cons hescape] at ht
        obtain ⟨g', hone, ht⟩ := bind_eq_ok_iff.mp ht
        exact ih ht (by simp [strict_takeOne hone, hg])

/-- What `k` makes of progress with the flag is what it makes of progress without, and says so; it
refuses the flag a second time. -/
def AddsStrict (k : Given → Except UsageError Given) : Prop :=
  ∀ g h, g.options.strict = false →
    (k (g.setStrict true) = .ok h ↔
      ∃ h', k g = .ok h' ∧ h'.options.strict = false ∧ h = h'.setStrict true)

theorem LeavesStrict.addsStrict {op : Given → Except UsageError Given} (hop : LeavesStrict op) :
    AddsStrict op := by
  intro g h hg
  rw [hop g true]
  cases hres : op g with
  | error e => simp [Except.map]
  | ok g' =>
    have hg' : g'.options.strict = false := (hop.strict_eq hres).trans hg
    constructor
    · intro heq
      exact ⟨g', rfl, hg', (Except.ok.inj heq).symm⟩
    · rintro ⟨h', heq, -, rfl⟩
      cases heq
      rfl

theorem LeavesStrict.bind_addsStrict {op k : Given → Except UsageError Given}
    (hop : LeavesStrict op) (hk : AddsStrict k) : AddsStrict fun g => op g >>= k := by
  intro g h hg
  simp only [hop g true]
  cases hres : op g with
  | error e =>
    have herror : (Except.error e >>= k) = .error e := rfl
    simp [Except.map, herror]
  | ok g' => exact hk g' h ((hop.strict_eq hres).trans hg)

/-- The flag is refused the second time, and nothing after it takes it back. -/
theorem addsStrict_flag {k : Given → Except UsageError Given}
    (hk : ∀ g h, k g = .ok h → g.options.strict = true → h.options.strict = true) :
    AddsStrict fun g => g.takeOne Name.filter.flags "--strict" >>= k := by
  intro g h hg
  simp only [takeOne_strict]
  constructor
  · intro hsecond
    obtain ⟨g', hflag, -⟩ := bind_eq_ok_iff.mp hsecond
    obtain ⟨s, hs, hflag⟩ := bind_eq_ok_iff.mp hflag
    have hstrict := leavesStrict_settle.strict_eq hs
    rw [(setFlag_strict_eq_ok_iff.mp hflag).1] at hstrict
    cases hstrict
  · rintro ⟨h', hfirst, hstrict, -⟩
    obtain ⟨g', hflag, ht⟩ := bind_eq_ok_iff.mp hfirst
    obtain ⟨s, -, hflag⟩ := bind_eq_ok_iff.mp hflag
    have hg' : g'.options.strict = true := by
      rw [(setFlag_strict_eq_ok_iff.mp hflag).2]
      rfl
    rw [hk g' h' ht hg'] at hstrict
    cases hstrict

theorem addsStrict_take (escaped : Bool) (args : List String) :
    AddsStrict fun g => g.take Name.filter.flags escaped args := by
  induction args generalizing escaped with
  | nil => exact leavesStrict_settle.addsStrict
  | cons arg args ih =>
    cases escaped with
    | true =>
      simp only [take_escaped]
      exact (leavesStrict_setInput arg).bind_addsStrict (ih true)
    | false =>
      by_cases hescape : arg = "--"
      · simp only [hescape, take_escape]
        exact ih true
      · simp only [take_cons hescape]
        by_cases harg : arg = "--strict"
        · rw [harg]
          exact addsStrict_flag fun _ _ => strict_of_take
        · exact (leavesStrict_takeOne harg).bind_addsStrict (ih false)

/-! ## Where the flag may stand -/

theorem pending_setConfig {path : String} (h : g.setConfig path = .ok g') :
    g'.pending = none := by
  unfold setConfig at h
  split at h
  · cases h
  · split at h
    · cases h
    · cases h; rfl

theorem pending_setInput {path : String} (h : g.setInput path = .ok g') :
    g'.pending = some (.input path) := by
  unfold setInput at h
  split at h
  · cases h
  · obtain ⟨s, -, h⟩ := bind_eq_ok_iff.mp h
    cases h
    rfl

theorem pending_setValue {text : String} (h : g.setValue text = .ok g') :
    g'.pending ≠ some (.config none) := by
  unfold setValue at h
  split at h
  · cases h; simp
  · simp [pending_setInput h]

theorem pending_setFlag {f : Flag} (hp : g.pending = none) (h : g.setFlag f = .ok g') :
    g'.pending = some (.config none) ↔ f = .config := by
  cases f with
  | help => cases h
  | strict => rw [(setFlag_strict_eq_ok_iff.mp h).2]; simp [setStrict, hp]
  | json => cases hjson : g.options.json <;> simp [setFlag, hjson] at h; simp [← h, hp]
  | config => cases h; simp

theorem pending_setLong {name : String} {value : Option String}
    (h : g.setLong Name.filter.flags name value = .ok g') :
    g'.pending = some (.config none) ↔ name = "config" ∧ value = none := by
  unfold setLong at h
  split at h
  · cases h
  · next path _ =>
    obtain ⟨s, -, hset⟩ := bind_eq_ok_iff.mp h
    simp [pending_setConfig hset]
  · next f hfind =>
    obtain ⟨s, hs, hflag⟩ := bind_eq_ok_iff.mp h
    have hname : f.name = name := by simpa using List.find?_some hfind
    have hconfig : f = .config ↔ f.name = "config" := by cases f <;> decide
    rw [pending_setFlag (input_settle hs).2 hflag, hconfig, hname, eq_self, and_true]
  · cases h

/-- A value is missing exactly after `--config`. -/
theorem pending_takeOne (harg : arg ≠ "--") (h : g.takeOne Name.filter.flags arg = .ok g') :
    g'.pending = some (.config none) ↔ arg = "--config" := by
  have hconfig : formOf "--config" = .long "config" none := by decide +kernel
  unfold takeOne at h
  split at h
  · next hform => exact absurd (eq_escape_of_formOf hform) harg
  · next name value hform =>
    rw [pending_setLong h]
    constructor
    · rintro ⟨rfl, rfl⟩
      exact eq_of_formOf_long hform
    · rintro rfl
      rw [hconfig] at hform
      cases hform
      exact ⟨rfl, rfl⟩
  · split at h
    · obtain ⟨s, -, hflag⟩ := bind_eq_ok_iff.mp h
      cases hflag
    · cases h
  · next text hform =>
    have hother : arg ≠ "--config" := by
      rintro rfl
      rw [hconfig] at hform
      cases hform
    simp [pending_setValue h, hother]

theorem pending_foldlM {xs : List String} (hxs : "--" ∉ xs)
    (h : xs.foldlM (takeOne Name.filter.flags) {} = .ok g) :
    g.pending = some (.config none) ↔ xs.getLast? = some "--config" := by
  rcases List.eq_nil_or_concat xs with rfl | ⟨xs, arg, rfl⟩
  · cases h; simp
  · rw [List.concat_eq_append] at h hxs ⊢
    rw [List.foldlM_append] at h
    obtain ⟨s, -, h⟩ := bind_eq_ok_iff.mp h
    rw [List.foldlM_cons] at h
    obtain ⟨g', hone, hnil⟩ := bind_eq_ok_iff.mp h
    cases hnil
    have harg : arg ≠ "--" := by
      rintro rfl
      simp at hxs
    simpa using pending_takeOne harg hone

/-- Before `--`, the flag is accepted after every argument but `--config`, and only once. -/
theorem take_strict_iff {xs : List String} (hxs : "--" ∉ xs) (ys : List String) :
    take Name.filter.flags {} false (xs ++ "--strict" :: ys) = .ok h ↔
      xs.getLast? ≠ some "--config" ∧
        ∃ h', take Name.filter.flags {} false (xs ++ ys) = .ok h' ∧ h'.options.strict = false ∧
          h = h'.setStrict true := by
  simp only [take_append hxs, take_cons (show "--strict" ≠ "--" by decide), takeOne_strict,
    bind_eq_ok_iff]
  constructor
  · rintro ⟨g, hg, g', ⟨s, hs, hflag⟩, ht⟩
    obtain ⟨hstrict, rfl⟩ := setFlag_strict_eq_ok_iff.mp hflag
    obtain ⟨h', hsettled, hh', rfl⟩ := (addsStrict_take false ys s h hstrict).mp ht
    refine ⟨?_, h', ⟨g, hg, (take_of_settle hs false ys).symm.trans hsettled⟩, hh', rfl⟩
    rw [ne_eq, ← pending_foldlM hxs hg]
    exact pending_of_settle hs
  · rintro ⟨hlast, h', ⟨g, hg, ht⟩, hh', rfl⟩
    rw [ne_eq, ← pending_foldlM hxs hg] at hlast
    obtain ⟨s, hs⟩ := exists_settle_of_take hlast ht
    have hstrict : s.options.strict = false := by
      rw [leavesStrict_settle.strict_eq hs, ← Bool.not_eq_true]
      intro hgiven
      rw [strict_of_take ht hgiven] at hh'
      cases hh'
    refine ⟨g, hg, s.setStrict true, ⟨s, hs, ?_⟩, ?_⟩
    · exact setFlag_strict_eq_ok_iff.mpr ⟨hstrict, rfl⟩
    · exact (addsStrict_take false ys s _ hstrict).mpr
        ⟨h', (take_of_settle hs false ys).trans ht, hh', rfl⟩

end
end Given

/-! ## Arguments of `filter` -/

theorem exists_filter_of_parse {args : List String} {input : String} {o : FilterOptions}
    (h : parse args = .ok (.filter input o)) : ∃ rest, args = "filter" :: rest := by
  cases args with
  | nil => cases h
  | cons arg rest =>
    unfold parse at h
    cases hname : Name.ofText? arg with
    | none =>
      simp only [hname] at h
      split at h
      · cases h
      · split at h <;> cases h
    | some name =>
      simp only [hname, Name.invocation] at h
      obtain ⟨g, -, h⟩ := bind_eq_ok_iff.mp h
      unfold Name.ofText? at hname
      split_ifs at hname with hdecode hfilter
      · cases hname
        split at h <;> cases h
      · exact ⟨rest, by rw [hfilter]⟩

theorem parse_filter_eq_ok_iff {args : List String} {input : String} {o : FilterOptions} :
    parse ("filter" :: args) = .ok (.filter input o) ↔
      ∃ g, Given.take Name.filter.flags {} false args = .ok g ∧ g.input = some input ∧
        g.options = o := by
  have hparse : parse ("filter" :: args) = Name.filter.invocation args := rfl
  rw [hparse, Name.invocation, bind_eq_ok_iff]
  refine exists_congr fun g => and_congr_right fun _ => ?_
  cases hinput : g.input with
  | none => simp [throw, throwThe, MonadExceptOf.throw]
  | some path => simp [pure, Except.pure]

/-- The second arguments are the first with the flag `--strict` among the options of `filter`:
before `--`, and not where `--config` would take it for a missing value. -/
def StrictAdded (args args' : List String) : Prop :=
  ∃ xs ys, args = "filter" :: (xs ++ ys) ∧ args' = "filter" :: (xs ++ "--strict" :: ys) ∧
    "--" ∉ xs ∧ xs.getLast? ≠ some "--config"

/-- With the flag the arguments are accepted exactly if they are accepted without it and do not have
it yet, and then they mean the same but for the flag. -/
theorem StrictAdded.parse_iff {args args' : List String} (h : StrictAdded args args')
    {input : String} {o' : FilterOptions} :
    parse args' = .ok (.filter input o') ↔
      ∃ o, parse args = .ok (.filter input o) ∧ o.strict = false ∧
        o' = { o with strict := true } := by
  obtain ⟨xs, ys, rfl, rfl, hxs, hlast⟩ := h
  simp only [parse_filter_eq_ok_iff, Given.take_strict_iff hxs ys]
  constructor
  · rintro ⟨_, ⟨-, g, ht, hstrict, rfl⟩, hinput, rfl⟩
    exact ⟨g.options, ⟨g, ht, hinput, rfl⟩, hstrict, rfl⟩
  · rintro ⟨_, ⟨g, ht, hinput, rfl⟩, hstrict, rfl⟩
    exact ⟨g.setStrict true, ⟨hlast, g, ht, hstrict, rfl⟩, hinput, rfl⟩

/-- Accepted arguments that ask for the strict preset have the flag at some place, from which it can
be taken. -/
theorem exists_strictAdded {args : List String} {input : String} {o : FilterOptions}
    (h : parse args = .ok (.filter input o)) (hstrict : o.strict = true) :
    ∃ args₀, StrictAdded args₀ args := by
  obtain ⟨rest, rfl⟩ := exists_filter_of_parse h
  obtain ⟨g, ht, -, rfl⟩ := parse_filter_eq_ok_iff.mp h
  obtain ⟨xs, ys, -, rfl, hxs⟩ := Given.strict_take ht hstrict rfl
  exact ⟨_, xs, ys, rfl, rfl, hxs, ((Given.take_strict_iff hxs ys).mp ht).1⟩

end ComposeGuards.Command
