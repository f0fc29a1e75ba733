import ComposeGuards.Guard.Settings
import ComposeGuards.Guard.Shape

/-! # Scanning a method

A body is read once from front to back. Each call that anchors an enabled guard is one sighting: it
either yields the spans of the guard or is declined. Findings and messages are two views of the
same sightings, in the order of their calls.
-/
namespace ComposeGuards

/-- An anchor in a body, with the spans of its guard or the reason why it is declined. -/
structure Sighting where
  guard : Guard
  call : Nat
  outcome : Except Guard.Mismatch (List Span)

/-- A recognised guard and the spans that it excludes. -/
structure Finding where
  guard : Guard
  call : Nat
  spans : List Span
  deriving DecidableEq, Repr

def Finding.title (f : Finding) : String :=
  f.guard.name ++ " at " ++ positionText f.call

namespace Sighting

def finding? (s : Sighting) : Option Finding :=
  match s.outcome with
  | .ok spans => some ⟨s.guard, s.call, spans⟩
  | .error _ => none

/-- A span as it is written in messages. -/
def spanRecord (s : Span) : String :=
  "ExclusionRange \x7b start: InsnId(" ++ toString s.first ++ "), end: InsnId(" ++
    toString s.last ++ ") \x7d"

/-- The message of a sighting; the drift policy decides how loud a declined one is. -/
def message (drift : DriftPolicy) (m : Method) (s : Sighting) : Log.Message :=
  match s.outcome with
  | .ok spans =>
    ⟨.debug, s.guard.name ++ " at " ++ positionText s.call ++ " in " ++ m.name ++ ": [" ++
      ", ".intercalate (spans.map spanRecord) ++ "]"⟩
  | .error e =>
    match drift with
    | .silent =>
      ⟨.debug, s.guard.name ++ " at " ++ positionText s.call ++ " in " ++ m.name ++
        " declined: " ++ e.reason⟩
    | .warn =>
      ⟨.warn, s.guard.name ++ " call at " ++ positionText s.call ++ " in " ++ m.name ++ m.desc ++
        " does not match the expected shape: " ++ e.reason⟩

end Sighting

/-- The sighting at a position that holds the given instruction. -/
def Body.sightingAt? (b : Body) (i : Instruction) (call : Nat) : Option Sighting := do
  let callee ← i.callee?
  let g ← Guard.ofCallee? callee
  return ⟨g, call, g.spans b call⟩

/-- Every anchor of the body, in order. -/
def Body.sightings (b : Body) : List Sighting :=
  b.zipIdx.filterMap fun (i, call) => b.sightingAt? i call

namespace Settings

/-- The anchors of enabled guards. -/
def sightings (s : Settings) (m : Method) : List Sighting :=
  m.body.sightings.filter fun x => s.enables x.guard

/-- The recognised guards, whether or not the method is composable. -/
def findings (s : Settings) (m : Method) : List Finding :=
  (s.sightings m).filterMap Sighting.finding?

/-- The messages of the scan. -/
def scanLog (s : Settings) (m : Method) : List Log.Message :=
  (s.sightings m).map (Sighting.message s.drift m)

end Settings

/-- A method is composable if its class comes from Kotlin and it carries the marker annotation among
those kept in the class file only. -/
def Method.isComposable (m : Method) (inKotlin : Bool) : Bool :=
  inKotlin && m.hasInvisible Guard.composable

namespace Settings

/-- The name under which the filter reports. -/
def filterName : String :=
  "KotlinCompose"

/-- The recognised guards of a composable method; other methods have none. -/
def find (s : Settings) (inKotlin : Bool) (m : Method) : List Finding :=
  if m.isComposable inKotlin then s.findings m else []

/-- Reports the spans of the recognised guards, one after another. -/
def filter (s : Settings) (inKotlin : Bool) (m : Method) (e : Exclusions) : Exclusions :=
  (s.find inKotlin m).foldl (fun e f => e.ignoreAll f.spans) e

end Settings
end ComposeGuards
