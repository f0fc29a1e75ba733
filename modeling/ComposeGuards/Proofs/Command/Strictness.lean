import ComposeGuards.Command.Run
import ComposeGuards.Proofs.Guard.Drift
import ComposeGuards.Proofs.Listing.Spelling

/-! # What the strict flag changes

The strict flag asks for another drift policy, unless a configuration file decides. Reports do not
depend on the policy, so the output of `filter` is the same with and without the flag, whatever is
read.
-/
namespace ComposeGuards

theorem Settings.report_withDrift (s : Settings) (d : DriftPolicy) (cs : List ClassUnit) :
    (s.withDrift d).report cs = s.report cs := by
  have hmethod : (s.withDrift d).methodReport = s.methodReport := by
    funext c m
    simp only [methodReport, find, findings_withDrift]
  simp only [report, hmethod]

namespace Command

/-! ## Arguments -/

theorem value_of_formOf {arg text : String} (h : formOf arg = .value text) : text = arg := by
  unfold formOf at h
  split at h
  · cases h
  · split at h <;> cases h
  · cases h
  · cases h
    rfl

theorem eq_escape_of_formOf {arg : String} (h : formOf arg = .escape) : arg = "--" := by
  unfold formOf at h
  split at h
  · next hdashes => exact String.toList_inj.mp hdashes
  · split at h <;> cases h
  · cases h
  · cases h

namespace Given

theorem input_settle {g g' : Given} (h : g.settle = .ok g') :
    g'.input.isSome = g.hasInput ∧ g'.pending = none := by
  unfold settle at h
  split at h
  · next hp => cases h; simp [hasInput, hp]
  · next path hp =>
    split at h
    · cases h
    · cases h; simp [hasInput, hp]
  · cases h
  · next path hp =>
    unfold setConfig at h
    split at h
    · cases h
    · split at h
      · cases h
      · cases h; simp [hasInput, hp]

theorem hasInput_settle {g g' : Given} (h : g.settle = .ok g') : g'.hasInput = g.hasInput := by
  obtain ⟨hinput, hpending⟩ := input_settle h
  rw [← hinput]
  simp [hasInput, hpending]

theorem hasInput_setFlag {g g' : Given} {f : Flag} (hp : g.pending = none)
    (h : g.setFlag f = .ok g') : g'.hasInput = g.hasInput := by
  cases f with
  | help => cases h
  | strict =>
    simp only [setFlag] at h
    split at h
    · cases h
    · cases h; rfl
  | json =>
    simp only [setFlag] at h
    split at h
    · cases h
    · cases h; rfl
  | config => cases h; simp [hasInput, hp]

theorem hasInput_setConfig {g g' : Given} {path : String} (hp : g.pending = none)
    (h : g.setConfig path = .ok g') : g'.hasInput = g.hasInput := by
  unfold setConfig at h
  split at h
  · cases h
  · split at h
    · cases h
    · cases h; simp [hasInput, hp]

/-- A long option supplies no input. -/
theorem hasInput_setLong {g g' : Given} {flags : List Flag} {name : String}
    {value : Option String} (h : g.setLong flags name value = .ok g') :
    g'.hasInput = g.hasInput := by
  unfold setLong at h
  split at h
  · cases h
  · obtain ⟨g₁, hsettle, hset⟩ := Listing.bind_eq_ok_iff.mp h
    rw [hasInput_setConfig (input_settle hsettle).2 hset, hasInput_settle hsettle]
  · obtain ⟨g₁, hsettle, hset⟩ := Listing.bind_eq_ok_iff.mp h
    rw [hasInput_setFlag (input_settle hsettle).2 hset, hasInput_settle hsettle]
  · cases h

theorem input_take_of_long {flags : List Flag} {args : List String} {g g' : Given}
    (hargs : ∀ arg ∈ args, ∃ name value, formOf arg = .long name value)
    (h : g.take flags false args = .ok g') : g'.input.isSome = g.hasInput := by
  induction args generalizing g with
  | nil => exact (input_settle h).1
  | cons arg args ih =>
    obtain ⟨name, value, hform⟩ := hargs arg List.mem_cons_self
    simp only [take, hform, Bool.false_eq_true, if_false] at h
    obtain ⟨g₁, hlong, htake⟩ := Listing.bind_eq_ok_iff.mp h
    rw [ih (fun a ha => hargs a (List.mem_cons_of_mem _ ha)) htake, hasInput_setLong hlong]

end Given

/-- Long options alone name no listing. -/
theorem parse_filter_of_long {args : List String}
    (hargs : ∀ arg ∈ args, ∃ name value, formOf arg = .long name value) :
    ∃ e, parse ("filter" :: args) = .error e := by
  have hparse : parse ("filter" :: args) = Name.filter.invocation args := rfl
  rw [hparse, Name.invocation]
  cases ht : Given.take Name.filter.flags {} false args with
  | error e => exact ⟨e, rfl⟩
  | ok g =>
    have hinput : g.input = none := by
      rw [← Option.not_isSome_iff_eq_none, Given.input_take_of_long hargs ht]
      exact Bool.false_ne_true
    refine ⟨.missingRequired, ?_⟩
    simp [bind, Except.bind, hinput, throw, throwThe, MonadExceptOf.throw]

/-- The arguments `filter PATH`, with the flags that are asked for. -/
def filterArgs (path : String) (strict json : Bool) : List String :=
  "filter" :: path ::
    ((if strict then ["--strict"] else []) ++ (if json then ["--json"] else []))

theorem formOf_strict : formOf "--strict" = .long "strict" none := by decide +kernel

theorem formOf_json : formOf "--json" = .long "json" none := by decide +kernel

theorem parse_filterArgs_of_long {path name : String} {value : Option String}
    (h : formOf path = .long name value) (strict json : Bool) :
    ∃ e, parse (filterArgs path strict json) = .error e := by
  refine parse_filter_of_long fun arg harg => ?_
  have hcases : arg = path ∨ arg = "--strict" ∨ arg = "--json" := by grind
  rcases hcases with rfl | rfl | rfl
  · exact ⟨name, value, h⟩
  · exact ⟨_, _, formOf_strict⟩
  · exact ⟨_, _, formOf_json⟩

theorem parse_filterArgs_of_value {path : String} (h : formOf path = .value path)
    (strict json : Bool) :
    parse (filterArgs path strict json) =
      if path.isEmpty then .error .invalidValue
      else .ok (.filter path { strict := strict, json := json }) := by
  cases hempty : path.isEmpty <;> cases strict <;> cases json <;>
    simp [filterArgs, parse, Name.ofText?, Name.invocation, Given.take, Given.setValue,
      Given.setInput, Given.hasInput, Given.setLong, Given.settle, Given.setFlag, Name.flags,
      Flag.name, bind, Except.bind, pure, Except.pure, h, formOf_strict, formOf_json, hempty]

/-- Whether `filter PATH` is accepted does not depend on the strict flag. -/
theorem parse_filterArgs {path : String} (hpath : path ≠ "--") (json : Bool) :
    (∀ strict, ∃ e, parse (filterArgs path strict json) = .error e) ∨
      ∀ strict, parse (filterArgs path strict json) =
        .ok (.filter path { strict := strict, json := json }) := by
  cases hform : formOf path with
  | escape => exact absurd (eq_escape_of_formOf hform) hpath
  | long name value => exact .inl fun strict => parse_filterArgs_of_long hform strict json
  | short letter =>
    left
    intro strict
    by_cases hletter : letter = 'h'
    · subst hletter
      exact ⟨.help, by simp [filterArgs, parse, Name.ofText?, Name.invocation, Given.take,
        Given.settle, Given.setFlag, bind, Except.bind, hform]⟩
    · exact ⟨.unknownArgument, by simp [filterArgs, parse, Name.ofText?, Name.invocation,
        Given.take, bind, Except.bind, hform]⟩
  | value text =>
    obtain rfl := value_of_formOf hform
    cases hempty : text.isEmpty with
    | true =>
      exact .inl fun strict => ⟨.invalidValue, by simp [parse_filterArgs_of_value hform, hempty]⟩
    | false => exact .inr fun strict => by simp [parse_filterArgs_of_value hform, hempty]

/-! ## Output -/

/-- A configuration file leaves nothing to the strict flag. -/
theorem loadSettings_of_config (files : Files) {o o' : FilterOptions}
    (h : o'.config = o.config) (hsome : o.config.isSome = true) :
    loadSettings files o' = loadSettings files o := by
  obtain ⟨path, hpath⟩ := Option.isSome_iff_exists.mp hsome
  simp only [loadSettings, h, hpath]

theorem loadSettings_withDrift (files : Files) {o : FilterOptions} (h : o.config = none) :
    ∃ d, loadSettings files o = .ok (Settings.standard.withDrift d) := by
  simp only [loadSettings, h]
  cases o.strict with
  | true => exact ⟨.warn, rfl⟩
  | false => exact ⟨.silent, rfl⟩

/-- The output does not depend on the strict flag, with or without a configuration file. -/
theorem output_runFilter_congr (files : Files) (input : String) {o o' : FilterOptions}
    (hconfig : o'.config = o.config) (hjson : o'.json = o.json) :
    (runFilter files input o').output = (runFilter files input o).output := by
  cases hsome : o.config with
  | some path =>
    have hload := loadSettings_of_config files hconfig (by rw [hsome]; rfl)
    simp only [runFilter, hload, hjson]
  | none =>
    obtain ⟨d, hd⟩ := loadSettings_withDrift files hsome
    obtain ⟨d', hd'⟩ := loadSettings_withDrift files (hconfig.trans hsome)
    simp only [runFilter, hd, hd', hjson, Settings.report_withDrift]
    cases loadListing files input with
    | error e => rfl
    | ok cs => rfl

theorem output_filterArgs_strict (files : Files) {path : String} (hpath : path ≠ "--")
    (json : Bool) :
    (run files (filterArgs path true json)).output =
      (run files (filterArgs path false json)).output := by
  rcases parse_filterArgs hpath json with hrefused | haccepted
  · obtain ⟨e, he⟩ := hrefused true
    obtain ⟨e', he'⟩ := hrefused false
    simp only [run, he, he']
  · simp only [run, haccepted, Invocation.run]
    exact output_runFilter_congr files path rfl rfl

/-- Settings that differ only in the drift policy find the same in every method. They tell of every
anchor once and in order, of a match in the same words and of a declined anchor for the same reason,
quietly or as a warning. On the command line the output of `filter PATH` is the same with and
without the strict flag; `--` is no path, it ends the options. -/
theorem drift_never_changes_results (s : Settings) (d : DriftPolicy) (m : Method) (files : Files)
    {path : String} (hpath : path ≠ "--") (json : Bool) :
    s.DifferInDriftOnly (s.withDrift d) m ∧
      (run files (filterArgs path true json)).output =
        (run files (filterArgs path false json)).output :=
  ⟨s.differInDriftOnly d m, output_filterArgs_strict files hpath json⟩

/-- A method with a skip guard, and with an anchor that no jump follows. -/
def driftingMethod : Method where
  name := "m"
  desc := "()V"
  invisible := ["Landroidx/compose/runtime/Composable;"]
  body := [.call (.named .invokeinterface) Guard.skip.signature true, .jump (.named .ifne) 1,
    .call (.named .invokeinterface) Guard.skip.signature true, .label 1]

def driftingFiles : Files :=
  fun _ => .ok (Listing.print [⟨"A", true, [driftingMethod]⟩])

/-- The second anchor is declined, under the strict flag with a warning. -/
theorem drift_never_changes_results_drifting :
    "a" ≠ "--" ∧ Settings.standard.DifferInDriftOnly .strict driftingMethod ∧
      (run driftingFiles ["filter", "a", "--strict"]).output =
        (run driftingFiles ["filter", "a"]).output ∧
      Settings.standard.anchors driftingMethod = [(.skip, 0), (.skip, 2)] ∧
      Settings.standard.findings driftingMethod = [⟨.skip, 0, [⟨0, 1⟩, ⟨3, 3⟩]⟩] ∧
      (Settings.strict.scanLog driftingMethod).map Log.Message.level = [.debug, .warn] := by
  obtain ⟨hscan, hrun⟩ := drift_never_changes_results .standard .warn driftingMethod driftingFiles
    (by decide : "a" ≠ "--") false
  exact ⟨by decide, hscan, hrun, by rfl, by rfl, by rfl⟩

end Command
end ComposeGuards
