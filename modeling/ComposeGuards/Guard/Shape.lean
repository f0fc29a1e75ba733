import ComposeGuards.Guard.Basic

/-! # The shape around an anchor

* A skip guard jumps on `IFNE` right after its call. What lies up to the jump, and from the jump's
  target to the end of the body, is excluded.
* A scope guard has `DUP` after its call and `IFNULL` after that, whose target runs into `POP`. The
  jump, the `POP` and what lies between them are excluded.
* A trace guard jumps on `IFEQ` right after its call. The jump, its target and what lies between
  them are excluded.

Nothing may stand between a call and the instructions that must follow it, markers included. Only
the `POP` of a scope guard is searched for past markers.
-/
namespace ComposeGuards.Guard

/-- Why the surroundings of an anchor are not those of its guard. -/
inductive Mismatch
  | noIfne
  | noDup
  | noIfnull
  | noIfeq
  | targetMissing
  | nothingAtTarget
  | noPop
  | ifnullBackwards
  | ifeqBackwards
  deriving DecidableEq, Repr

def Mismatch.reason : Mismatch → String
  | noIfne => "call is not followed by IFNE"
  | noDup => "call is not followed by DUP"
  | noIfnull => "DUP is not followed by IFNULL"
  | noIfeq => "call is not followed by IFEQ"
  | targetMissing => "jump target label is not part of the method"
  | nothingAtTarget => "IFNULL target has no instruction"
  | noPop => "IFNULL target is not POP"
  | ifnullBackwards => "IFNULL jumps backwards"
  | ifeqBackwards => "IFEQ jumps backwards"

/-- The position of the target of the jump at the given position. -/
def jumpFrom (b : Body) (m : Mnemonic) (otherwise : Mismatch) (jump : Nat) :
    Except Mismatch Nat :=
  match b.jumpAt? m jump with
  | none => .error otherwise
  | some l =>
    match b.position? l with
    | none => .error .targetMissing
    | some target => .ok target

def skipSpans (b : Body) (call : Nat) : Except Mismatch (List Span) :=
  match jumpFrom b .ifne .noIfne (call + 1) with
  | .error e => .error e
  | .ok target => .ok [⟨0, call + 1⟩, ⟨target, b.length - 1⟩]

def scopeSpans (b : Body) (call : Nat) : Except Mismatch (List Span) :=
  if b.hasOpcodeAt .dup (call + 1) then
    match jumpFrom b .ifnull .noIfnull (call + 2) with
    | .error e => .error e
    | .ok target =>
      match b.firstReal? target with
      | none => .error .nothingAtTarget
      | some pop =>
        if !b.hasOpcodeAt .pop pop then .error .noPop
        else if pop < call + 2 then .error .ifnullBackwards
        else .ok [⟨call + 2, pop⟩]
  else .error .noDup

def traceSpans (b : Body) (call : Nat) : Except Mismatch (List Span) :=
  match jumpFrom b .ifeq .noIfeq (call + 1) with
  | .error e => .error e
  | .ok target => if target < call + 1 then .error .ifeqBackwards else .ok [⟨call + 1, target⟩]

/-- The spans that the guard excludes, given the position of its anchor. -/
def spans (g : Guard) (b : Body) (call : Nat) : Except Mismatch (List Span) :=
  match g with
  | .skip => skipSpans b call
  | .scope => scopeSpans b call
  | .trace => traceSpans b call

theorem jumpFrom_eq_ok_iff {b : Body} {m : Mnemonic} {e : Mismatch} {jump target : Nat} :
    jumpFrom b m e jump = .ok target ↔
      ∃ l, b.jumpAt? m jump = some l ∧ b.position? l = some target := by
  unfold jumpFrom
  cases b.jumpAt? m jump with
  | none => simp
  | some l => cases h : b.position? l <;> simp [h]

end ComposeGuards.Guard
