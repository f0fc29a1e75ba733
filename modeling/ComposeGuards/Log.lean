/-! # Log messages

Messages are data: an operation that reports something returns its messages in order.
-/
namespace ComposeGuards.Log

inductive Level
  | trace | debug | info | warn
  deriving DecidableEq, Repr

def Level.name : Level → String
  | trace => "TRACE"
  | debug => "DEBUG"
  | info => "INFO"
  | warn => "WARN"

structure Message where
  level : Level
  text : String
  deriving DecidableEq, Repr

def Message.render (m : Message) : String :=
  m.level.name ++ " " ++ m.text

end ComposeGuards.Log
