import ComposeGuards.Guard.Basic

/-! # Settings

Settings say which guards are looked for, and how a call that anchors a guard without the expected
surroundings is reported. The report never changes what is found.
-/
namespace ComposeGuards

/-- How a declined anchor is reported. -/
inductive DriftPolicy
  | silent | warn
  deriving DecidableEq, Repr

namespace DriftPolicy

def key : DriftPolicy → String
  | silent => "silent"
  | warn => "warn"

def all : List DriftPolicy :=
  [silent, warn]

def ofKey? (key : String) : Option DriftPolicy :=
  all.find? fun d => d.key = key

end DriftPolicy

structure Settings where
  skip : Bool := true
  scope : Bool := true
  trace : Bool := true
  drift : DriftPolicy := .silent
  deriving DecidableEq, Repr

namespace Settings

/-- Every guard, drift reported quietly. -/
def standard : Settings := {}

/-- Every guard, drift reported as warnings. -/
def strict : Settings := { drift := .warn }

def enables (s : Settings) : Guard → Bool
  | .skip => s.skip
  | .scope => s.scope
  | .trace => s.trace

def anyEnabled (s : Settings) : Bool :=
  Guard.all.any s.enables

def set (s : Settings) (enabled : Bool) : Guard → Settings
  | .skip => { s with skip := enabled }
  | .scope => { s with scope := enabled }
  | .trace => { s with trace := enabled }

theorem enables_set (s : Settings) (enabled : Bool) (g h : Guard) :
    (s.set enabled g).enables h = if g = h then enabled else s.enables h := by
  cases g <;> cases h <;> rfl

end Settings
end ComposeGuards
