/-
Types of attribute values, as connectors report them.

* `ValueType.isTextual`: the types whose values are text;
* `ValueType.name` is the written form, `ValueType.label` the one used in messages.
-/
import Reconciler.Json.Codec

namespace Reconciler

/-- The type of the values of an attribute. -/
inductive ValueType where
  | string
  | polyString
  | int
  | long
  | boolean
  | dateTime
  | binary
deriving DecidableEq, Repr, Inhabited

namespace ValueType

/-- The name of a type. -/
def name : ValueType → String
  | string => "string"
  | polyString => "polyString"
  | int => "int"
  | long => "long"
  | boolean => "boolean"
  | dateTime => "dateTime"
  | binary => "binary"

/-- The name of a type in messages. -/
def label : ValueType → String
  | string => "String"
  | polyString => "PolyString"
  | int => "Int"
  | long => "Long"
  | boolean => "Boolean"
  | dateTime => "DateTime"
  | binary => "Binary"

/-- Whether values of the type are text. -/
def isTextual : ValueType → Bool
  | string | polyString => true
  | _ => false

instance : Named ValueType where
  all := [string, polyString, int, long, boolean, dateTime, binary]
  name := name
  ofName?_name a := by cases a <;> decide

instance : Codec ValueType := Named.codec

end ValueType

end Reconciler
