import ComposeGuards.Bytecode.Method
import ComposeGuards.Coverage.Exclusions

/-! # Guards of the Compose compiler

The Compose compiler wraps the body of a composable function in three guards. Each is recognised by
a call into the Compose runtime, its anchor: owner, name and descriptor must be those of the guard's
signature.
-/
namespace ComposeGuards

inductive Guard
  | skip | scope | trace
  deriving DecidableEq, Repr

namespace Guard

/-- Descriptor of the annotation that marks composable functions. -/
def composable : String :=
  "Landroidx/compose/runtime/Composable;"

/-- The guards in the order in which they are tried. -/
def all : List Guard :=
  [skip, scope, trace]

/-- The runtime method whose call anchors the guard. -/
def signature : Guard → MemberRef
  | skip => ⟨"androidx/compose/runtime/Composer", "getSkipping", "()Z"⟩
  | scope =>
    ⟨"androidx/compose/runtime/Composer", "endRestartGroup",
      "()Landroidx/compose/runtime/ScopeUpdateScope;"⟩
  | trace => ⟨"androidx/compose/runtime/ComposerKt", "isTraceInProgress", "()Z"⟩

/-- The name in texts for people. -/
def name : Guard → String
  | skip => "skip-guard"
  | scope => "scope-guard"
  | trace => "trace-guard"

/-- The name in settings and reports. -/
def key : Guard → String
  | skip => "skip_guard"
  | scope => "scope_guard"
  | trace => "trace_guard"

/-- The guard that a call to the method anchors. -/
def ofCallee? (callee : MemberRef) : Option Guard :=
  all.find? fun g => g.signature = callee

theorem signature_injective {a b : Guard} (h : a.signature = b.signature) : a = b := by
  revert h
  cases a <;> cases b <;> decide

theorem ofCallee?_eq_some_iff {callee : MemberRef} {g : Guard} :
    ofCallee? callee = some g ↔ callee = g.signature := by
  constructor
  · intro h
    have hg : g.signature = callee := by simpa using List.find?_some h
    exact hg.symm
  · rintro rfl
    cases g <;> rfl

end Guard
end ComposeGuards
