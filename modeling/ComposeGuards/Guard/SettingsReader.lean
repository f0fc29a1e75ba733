import ComposeGuards.Guard.Settings
import ComposeGuards.Json.Shape

/-! # Settings in JSON

Settings are an object whose members may come in any order and may be missing, or an array of the
same fields in the order skip, scope, trace, drift, which may end early. A missing field has its
standard value. Members with other keys are passed over; a known key must not occur twice.
-/
namespace ComposeGuards
open Json

namespace DriftPolicy

/-- The policies as they are listed when a name is none of them. -/
def choices : String :=
  "`silent` or `warn`"

def ofName (name : String) : Except Fault DriftPolicy :=
  match ofKey? name with
  | some d => .ok d
  | none => .error (.mismatch (.unknownVariant name choices))

/-- Reads a policy in an object whose bracket is already read: one key with the null value. A key
that is no string breaks the syntax here as in every object; it is not a value of the wrong type. -/
def readTagged (cs : List Char) : Except Fault (DriftPolicy × List Char) :=
  match skipBlank cs with
  | [] => .error .cutOff
  | '"' :: cs => do
    let (name, cs) ← readText cs
    let d ← ofName name
    let cs ← readMark ':' cs
    let cs ← readUnit cs
    let cs ← readMark '\x7d' cs
    return (d, cs)
  | _ => .error .malformed

/-- Reads a policy: its name, or an object with its name as the only key. -/
def read (cs : List Char) : Except Fault (DriftPolicy × List Char) :=
  match skipBlank cs with
  | [] => .error .cutOff
  | '"' :: cs => do
    let (name, cs) ← readText cs
    return (← ofName name, cs)
  | '\x7b' :: cs => readTagged cs
  | _ => .error .malformed

end DriftPolicy

namespace Settings

/-- A field of the settings. -/
inductive Field
  | guard (g : Guard)
  | drift
  deriving DecidableEq, Repr

def Field.key : Field → String
  | guard g => g.key
  | drift => "drift"

/-- The fields in the order of an array. -/
def Field.all : List Field :=
  Guard.all.map guard ++ [drift]

def Field.ofKey? (key : String) : Option Field :=
  all.find? fun f => f.key = key

/-- Reads the value of a field into the settings. -/
def readField (s : Settings) (f : Field) (cs : List Char) : Except Fault (Settings × List Char) :=
  match f with
  | .guard g => do
    let (enabled, cs) ← readBool cs
    return (s.set enabled g, cs)
  | .drift => do
    let (d, cs) ← DriftPolicy.read cs
    return ({ s with drift := d }, cs)

/-- Settings while an object is read, with the fields that have occurred. -/
structure Reading where
  settings : Settings := {}
  seen : List Field := []
  isFirst : Bool := true
  deriving DecidableEq, Repr

/-- Reads the value of the member with the given key. -/
def readMember (p : Reading) (key : String) (cs : List Char) :
    Except Fault (Reading × List Char) :=
  match Field.ofKey? key with
  | none => do
    let cs ← readMark ':' cs
    let cs ← skipValue cs
    return ({ p with isFirst := false }, cs)
  | some f =>
    if p.seen.contains f then .error (.mismatch (.duplicateField f.key))
    else do
      let cs ← readMark ':' cs
      let (s, cs) ← readField p.settings f cs
      return (⟨s, f :: p.seen, false⟩, cs)

/-- Reads one member, or the end of the object. -/
def memberStep (p : Reading) (cs : List Char) :
    Except Fault ((Reading ⊕ Settings) × List Char) := do
  let (key?, cs) ← readKey? p.isFirst cs
  match key? with
  | none => return (.inr p.settings, cs)
  | some key =>
    let (p, cs) ← readMember p key cs
    return (.inl p, cs)

/-- Reads the elements that are there for the given fields. -/
def readElements (s : Settings) (isFirst : Bool) :
    List Field → List Char → Except Fault (Settings × List Char)
  | [], cs => .ok (s, cs)
  | f :: fs, cs => do
    match ← nextElement? isFirst cs with
    | none => return (s, cs)
    | some cs =>
      let (s, cs) ← readField s f cs
      readElements s false fs cs

def read (cs : List Char) : Except Fault (Settings × List Char) :=
  match skipBlank cs with
  | [] => .error .cutOff
  | '[' :: cs => do
    let (s, cs) ← readElements {} true Field.all cs
    let cs ← readMark ']' cs
    return (s, cs)
  | '\x7b' :: cs => iterate memberStep {} cs
  | cs => .error (wrongType "struct ComposeFilterConfig" cs)

/-- Reads settings from a whole text. -/
def ofJson (text : String) : Except Fault Settings :=
  readDocument read text

end Settings
end ComposeGuards
