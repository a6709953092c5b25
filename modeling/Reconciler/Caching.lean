/-
Whether attribute values are kept in shadows.

* `CachingStrategy`: only identifiers, or all that may be read, or something unknown here;
* `CachingPolicy`: the strategy that a resource or an object type declares, if it does.

Main statements:
* `CachingStrategy.ofText_toText`: a strategy that was read is read again from its name.
-/
import Reconciler.Json.Codec

namespace Reconciler

/-- Which values are kept. -/
inductive CachingStrategy where
  /-- Identifiers only. -/
  | none
  /-- What was read anyway. -/
  | passive
  /-- A strategy that is not known here. -/
  | other (name : String)
deriving DecidableEq, Repr, Inhabited

namespace CachingStrategy

/-- The name of a strategy. -/
def toText : CachingStrategy → String
  | none => "none"
  | passive => "passive"
  | other name => name

/-- The strategy with a name; the case of ASCII letters does not matter for the known ones. -/
def ofText (s : String) : CachingStrategy :=
  if s.toLower = "none" then none
  else if s.toLower = "passive" then passive
  else other s

theorem ofText_toText (s : String) : ofText (ofText s).toText = ofText s := by
  by_cases h : s.toLower = "none"
  · have : ofText s = none := by simp [ofText, h]
    rw [this]
    decide +kernel
  by_cases h' : s.toLower = "passive"
  · have : ofText s = passive := by simp [ofText, h']
    rw [this]
    decide +kernel
  · have : ofText s = other s := by simp [ofText, h, h']
    simp only [this, toText]

instance : Codec CachingStrategy where
  encode s := .str s.toText
  decode? j := j.text?.map ofText

end CachingStrategy

/-- The strategy declared at some level, if one is. -/
structure CachingPolicy where
  strategy : Option CachingStrategy := .none
deriving DecidableEq, Repr, Inhabited

instance : Codec CachingPolicy where
  encode p := .record [("cachingStrategy", encode p.strategy)]
  decode? j := do
    let row ← Row.of? ["cachingStrategy"] j
    return { strategy := ← row.defaulted "cachingStrategy" .none }

end Reconciler
