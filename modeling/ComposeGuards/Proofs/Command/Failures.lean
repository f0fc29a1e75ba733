import ComposeGuards.Proofs.Command.Flags

/-! # All or nothing

A run writes its output last, so one that fails has written nothing. A configuration file is read
before the listing: if it is missing, unreadable or refused, that is the failure, whatever the
listing is. If it is accepted, it decides all settings, and the strict flag changes nothing.
-/
namespace ComposeGuards.Command

/-- Output only without a failure. -/
def Outcome.AllOrNothing (r : Outcome) : Prop :=
  r.failure ≠ none → r.output = ""

theorem allOrNothing_runDecode (files : Files) (input : String) :
    (runDecode files input).AllOrNothing := by
  unfold runDecode Outcome.AllOrNothing
  cases loadListing files input with
  | error e => exact fun _ => rfl
  | ok cs => exact fun hfail => absurd rfl hfail

theorem allOrNothing_runFilter (files : Files) (input : String) (o : FilterOptions) :
    (runFilter files input o).AllOrNothing := by
  unfold runFilter Outcome.AllOrNothing
  cases loadSettings files o with
  | error e => exact fun _ => rfl
  | ok s =>
    cases loadListing files input with
    | error e => exact fun _ => rfl
    | ok cs => exact fun hfail => absurd rfl hfail

theorem allOrNothing_run (files : Files) (args : List String) :
    (run files args).AllOrNothing := by
  unfold run
  cases parse args with
  | error e => exact fun _ => rfl
  | ok i =>
    cases i with
    | decode input => exact allOrNothing_runDecode files input
    | filter input o => exact allOrNothing_runFilter files input o

theorem run_eq_runFilter {files : Files} {args : List String} {input : String}
    {o : FilterOptions} (h : parse args = .ok (.filter input o)) :
    run files args = runFilter files input o := by
  rw [run, h]
  rfl

/-- Without settings the listing is not looked at, and there is nothing to tell of it. -/
theorem runFilter_of_loadSettings {files : Files} {input : String} {o : FilterOptions}
    {e : Failure} (h : loadSettings files o = .error e) :
    runFilter files input o = { failure := some e } := by
  rw [runFilter, h]

theorem loadSettings_of_unreadable {files : Files} {o : FilterOptions} {path : String}
    {fault : FileFault} (ho : o.config = some path) (h : files path = .error fault) :
    loadSettings files o = .error (.configUnreadable path fault) := by
  simp only [loadSettings, ho, h]

theorem loadSettings_of_refused {files : Files} {o : FilterOptions} {path text : String}
    {fault : Json.Fault} (ho : o.config = some path) (htext : files path = .ok text)
    (h : Settings.ofJson text = .error fault) :
    loadSettings files o = .error (.configRefused fault) := by
  simp only [loadSettings, ho, htext, h]

theorem runFilter_of_config (files : Files) (input : String) {o o' : FilterOptions}
    (hconfig : o'.config = o.config) (hjson : o'.json = o.json) (hsome : o.config.isSome = true) :
    runFilter files input o' = runFilter files input o := by
  rw [runFilter, runFilter, loadSettings_of_config files hconfig hsome, hjson]

/-- With a configuration file, accepted arguments without the flag are accepted with it. -/
theorem run_strictAdded {files : Files} {args args' : List String} {input : String}
    {o : FilterOptions} (h : StrictAdded args args') (hargs : parse args = .ok (.filter input o))
    (hsome : o.config.isSome = true) (hstrict : o.strict = false) :
    parse args' = .ok (.filter input { o with strict := true }) ∧
      run files args' = run files args := by
  have hargs' : parse args' = .ok (.filter input { o with strict := true }) :=
    h.parse_iff.mpr ⟨o, hargs, hstrict, rfl⟩
  refine ⟨hargs', ?_⟩
  rw [run_eq_runFilter hargs', run_eq_runFilter hargs]
  exact runFilter_of_config files input rfl rfl hsome

/-- With a configuration file, accepted arguments with the flag are accepted without it. -/
theorem run_strictTaken {files : Files} {args args' : List String} {input : String}
    {o' : FilterOptions} (h : StrictAdded args args')
    (hargs' : parse args' = .ok (.filter input o')) (hsome : o'.config.isSome = true) :
    parse args = .ok (.filter input { o' with strict := false }) ∧
      run files args = run files args' := by
  obtain ⟨o, hargs, hstrict, rfl⟩ := h.parse_iff.mp hargs'
  have ho : { o with strict := false } = o := by rw [← hstrict]
  refine ⟨by simpa only [ho] using hargs, ?_⟩
  exact (run_strictAdded h hargs hsome hstrict).2.symm

/-- A run that fails prints nothing. If `filter` is given a configuration file that is missing,
unreadable or refused, that is the whole outcome, so nothing is read from a listing. And with a
configuration file the outcome is the same with and without the strict flag: arguments with the flag
have it at some place, where it can be taken from them, and it can be added to those without. -/
theorem failing_run_prints_nothing_settings_first (files : Files) (args : List String) :
    ((run files args).failure ≠ none → (run files args).output = "") ∧
      ∀ input o path, parse args = .ok (.filter input o) → o.config = some path →
        (∀ fault, files path = .error fault →
            run files args = { failure := some (.configUnreadable path fault) }) ∧
          (∀ text fault, files path = .ok text → Settings.ofJson text = .error fault →
            run files args = { failure := some (.configRefused fault) }) ∧
          (o.strict = true → ∃ args₀, StrictAdded args₀ args) ∧
          (∀ args₀, StrictAdded args₀ args →
            parse args₀ = .ok (.filter input { o with strict := false }) ∧
              run files args₀ = run files args) ∧
          (o.strict = false → ∀ args', StrictAdded args args' →
            parse args' = .ok (.filter input { o with strict := true }) ∧
              run files args' = run files args) := by
  refine ⟨allOrNothing_run files args, ?_⟩
  intro input o path hargs ho
  have hsome : o.config.isSome = true := by rw [ho]; rfl
  refine ⟨?_, ?_, exists_strictAdded hargs, ?_, ?_⟩
  · intro fault hfault
    rw [run_eq_runFilter hargs]
    exact runFilter_of_loadSettings (loadSettings_of_unreadable ho hfault)
  · intro text fault htext hfault
    rw [run_eq_runFilter hargs]
    exact runFilter_of_loadSettings (loadSettings_of_refused ho htext hfault)
  · exact fun args₀ h => run_strictTaken h hargs hsome
  · exact fun hstrict args' h => run_strictAdded h hargs hsome hstrict

/-- A listing that is refused and a configuration that is refused, or missing. -/
def refusedFiles : Files := fun path =>
  if path = "a" then .ok ".class" else if path = "c" then .ok "\x7b\"drift\":1" else .error .missing

/-- The configuration is what fails, before the listing and with the strict flag too; without it
the listing fails. -/
theorem refused_settings_come_first :
    run refusedFiles ["filter", "a", "--config=c"] =
        { failure := some (.configRefused .malformed) } ∧
      run refusedFiles ["filter", "--strict", "a", "--config=c"] =
        { failure := some (.configRefused .malformed) } ∧
      run refusedFiles ["filter", "a", "--config", "b"] =
        { failure := some (.configUnreadable "b" .missing) } ∧
      (run refusedFiles ["filter", "a", "--json"]).failure ≠ none ∧
      (run refusedFiles ["filter", "a", "--json"]).output = "" := by
  have hrefused : parse ["filter", "a", "--config=c"] =
      .ok (.filter "a" { config := some "c" }) := by decide +kernel
  have hmissing : parse ["filter", "a", "--config", "b"] =
      .ok (.filter "a" { config := some "b" }) := by decide +kernel
  have hstrict : StrictAdded ["filter", "a", "--config=c"]
      ["filter", "--strict", "a", "--config=c"] :=
    ⟨[], ["a", "--config=c"], rfl, rfl, by decide, by decide⟩
  have hfails : (run refusedFiles ["filter", "a", "--json"]).failure ≠ none := by
    have hload : loadListing refusedFiles "a" =
        .error (.inputRefused (.malformed 1 .missingClassName ".class")) := by rfl
    have hargs : parse ["filter", "a", "--json"] = .ok (.filter "a" { json := true }) := by
      decide +kernel
    simp [run_eq_runFilter hargs, runFilter, loadSettings, hload]
  obtain ⟨-, hsettings⟩ :=
    failing_run_prints_nothing_settings_first refusedFiles ["filter", "a", "--config=c"]
  obtain ⟨-, hrefusal, -, -, hadded⟩ := hsettings "a" _ "c" hrefused rfl
  obtain ⟨-, hsettings⟩ :=
    failing_run_prints_nothing_settings_first refusedFiles ["filter", "a", "--config", "b"]
  obtain ⟨hmissed, -⟩ := hsettings "a" _ "b" hmissing rfl
  have hjson : Settings.ofJson "\x7b\"drift\":1" = .error .malformed := by cbv
  have hwithout := hrefusal _ _ rfl hjson
  refine ⟨hwithout, (hadded rfl _ hstrict).2.trans hwithout, hmissed _ rfl, hfails, ?_⟩
  exact (failing_run_prints_nothing_settings_first refusedFiles _).1 hfails

end ComposeGuards.Command
