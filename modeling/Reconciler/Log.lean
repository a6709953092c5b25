/-
What is remarked while work is done: a text and how much it matters.

* `LogLevel.admits`: which remarks a reader who asks for a level gets;
* `LogRecord.line`: a remark on one line, its level first.
-/

namespace Reconciler

/-- How much a remark matters, most severe first. -/
inductive LogLevel where
  | error
  | warn
  | info
  | debug
  | trace
deriving DecidableEq, Repr, Inhabited

namespace LogLevel

/-- Greater for what matters less. -/
def rank : LogLevel → Nat
  | error => 0
  | warn => 1
  | info => 2
  | debug => 3
  | trace => 4

/-- The name of a level at the start of a line. -/
def label : LogLevel → String
  | error => "ERROR"
  | warn => "WARN"
  | info => "INFO"
  | debug => "DEBUG"
  | trace => "TRACE"

/-- The level with this lower-case name. -/
def ofName? : String → Option LogLevel
  | "error" => some error
  | "warn" => some warn
  | "info" => some info
  | "debug" => some debug
  | "trace" => some trace
  | _ => none

/-- Whether remarks of level `other` are wanted at this level. -/
def admits (wanted other : LogLevel) : Bool := other.rank ≤ wanted.rank

end LogLevel

/-- A remark. -/
structure LogRecord where
  level : LogLevel
  text : String
deriving DecidableEq, Repr, Inhabited

/-- The remark on one line. -/
def LogRecord.line (r : LogRecord) : String := r.level.label ++ " " ++ r.text

end Reconciler
