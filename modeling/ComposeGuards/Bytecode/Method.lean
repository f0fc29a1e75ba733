import ComposeGuards.Bytecode.Body

/-! # Methods and classes

A method has a name, a descriptor, annotations of both retentions, and a body. A class is a name,
a flag that says whether the Kotlin compiler produced it, and its methods.
-/
namespace ComposeGuards

/-- How long an annotation is kept: at run time, or in the class file only. -/
inductive Retention
  | visible | invisible
  deriving DecidableEq, Repr

structure Method where
  name : String
  desc : String
  /-- Descriptors of the annotations kept at run time. -/
  visible : List String := []
  /-- Descriptors of the annotations kept in the class file only. -/
  invisible : List String := []
  body : Body := []
  deriving DecidableEq

namespace Method

def annotate (m : Method) (retention : Retention) (desc : String) : Method :=
  match retention with
  | .visible => { m with visible := m.visible ++ [desc] }
  | .invisible => { m with invisible := m.invisible ++ [desc] }

def hasInvisible (m : Method) (desc : String) : Bool :=
  m.invisible.contains desc

def normalize (m : Method) : Method :=
  { m with body := m.body.normalize }

/-- Equality up to the form of opcodes. -/
def same (a b : Method) : Bool :=
  a.normalize = b.normalize

end Method

structure ClassUnit where
  name : String
  isKotlin : Bool
  methods : List Method := []
  deriving DecidableEq

namespace ClassUnit

def normalize (c : ClassUnit) : ClassUnit :=
  { c with methods := c.methods.map Method.normalize }

/-- Equality of listings up to the form of opcodes. -/
def sameAll (cs ds : List ClassUnit) : Bool :=
  cs.map normalize = ds.map normalize

end ClassUnit
end ComposeGuards
