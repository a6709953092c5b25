/-
Matching rules: normal forms under which attribute values are compared.

Two values match under a rule when their normal forms are the same value, unless the rule has its
own say in that.  The standard rules have not; they change text only, and all but the default one
are meant for textual attributes.

* `MatchingRule`: a rule;
* `RuleRegistry`: rules by name, with the standard ones in `RuleRegistry.standard`;
* `RuleLookup`: all that a user of a registry sees of it.

Main statements:
* `MatchingRule.mapText_same`: the same values stay the same when their texts are changed;
* `RuleRegistry.lookup_standard_default`: without a name the default rule is meant, which every type
  admits.

Design notes:
* Rules can be added by others, so nothing is promised of them here.  In particular a rule may have
  different normal forms for both zeros, which are the same value everywhere else.
-/
import Reconciler.Error.Cause
import Reconciler.Text.Lowercase

namespace Reconciler

/-- A normal form of values. -/
structure MatchingRule where
  name : String
  /-- Whether the rule is meant for values of a type. -/
  supports : ValueType → Bool
  normalize : Json → Json
  /-- Whether two values match: by their normal forms, unless the rule says otherwise. -/
  isMatch : Json → Json → Bool := fun a b => (normalize a).same (normalize b)

namespace MatchingRule

/-- The rule under another name. -/
def renamed (rule : MatchingRule) (name : String) : MatchingRule := { rule with name := name }

/-- The value with its text changed; other values stay. -/
def mapText (f : List Char → List Char) : Json → Json
  | .str s => .str (String.ofList (f s.toList))
  | v => v

theorem mapText_same (f : List Char → List Char) (a b : Json) (h : a.same b = true) :
    (mapText f a).same (mapText f b) = true := by
  cases a with
  | str s =>
    cases b with
    | str t =>
      rw [Json.same_str, decide_eq_true_eq] at h
      rw [h, Json.same_refl]
    | _ => simp [Json.same, Json.unsigned] at h
  | _ =>
    cases b with
    | str t => simp [Json.same, Json.unsigned] at h
    | _ => exact h

/-- A rule for textual values. -/
def textual (name : String) (f : List Char → List Char) : MatchingRule where
  name := name
  supports := ValueType.isTextual
  normalize := mapText f

/-! ### The standard rules -/

/-- Leaves every value as it is, for every type. -/
def default : MatchingRule where
  name := "default"
  supports _ := true
  normalize v := v

instance : Inhabited MatchingRule := ⟨default⟩

/-- Words with single spaces between them. -/
def collapseBlanks (cs : List Char) : List Char := Text.join ' ' (Text.words cs)

/-- Lower case, without blanks around the parts of a distinguished name. -/
def normalizeDistinguishedName (cs : List Char) : List Char :=
  Text.join ',' <| (Text.pieces ',' cs).map fun rdn =>
    Text.join '=' <| (Text.pieces '=' rdn).map fun part => Text.lower (Text.trim part)

/-- Lower case, without blanks and braces around it. -/
def normalizeUuid (cs : List Char) : List Char :=
  Text.lower (Text.stripEnd '\x7d' (Text.stripStart '\x7b' (Text.trim cs)))

/-- The part after the last `@` in lower case. -/
def normalizeEmailAddress (cs : List Char) : List Char :=
  match Text.cutLast? '@' cs with
  | some (mailbox, domain) => mailbox ++ '@' :: Text.lower domain
  | none => cs

/-- Compares text without regard to case. -/
def stringIgnoreCase : MatchingRule := textual "stringIgnoreCase" Text.lower

/-- Compares text without regard to case and to the extent of blanks. -/
def polyStringNorm : MatchingRule := textual "polyStringNorm" (Text.lower ∘ collapseBlanks)

/-- Compares distinguished names. -/
def distinguishedName : MatchingRule := textual "distinguishedName" normalizeDistinguishedName

/-- Compares UUIDs, with or without braces. -/
def uuid : MatchingRule := textual "uuid" normalizeUuid

/-- Compares e-mail addresses, whose domains ignore case. -/
def emailAddress : MatchingRule := textual "emailAddress" normalizeEmailAddress

/-- The rules that every registry starts with. -/
def standard : List MatchingRule :=
  [default, stringIgnoreCase, polyStringNorm, distinguishedName, uuid, emailAddress]

end MatchingRule

/-- Finds the rule of an attribute by the rule's name, if one is given, and the type of values. -/
abbrev RuleLookup := Option String → ValueType → Except SchemaViolation MatchingRule

/-- Rules by name. -/
structure RuleRegistry where
  rules : SortedMap String MatchingRule

namespace RuleRegistry

/-- Adds a rule, or replaces the one of its name. -/
def register (r : RuleRegistry) (rule : MatchingRule) : RuleRegistry :=
  ⟨r.rules.insert rule.name rule⟩

/-- The standard rules. -/
def standard : RuleRegistry := MatchingRule.standard.foldl register ⟨.empty⟩

instance : Inhabited RuleRegistry := ⟨standard⟩

/-- The names of all rules, in order. -/
def names (r : RuleRegistry) : List String := r.rules.keys

/-- The rule of an attribute: the default one without a name.  It must be meant for the type. -/
def lookup (r : RuleRegistry) : RuleLookup := fun name valueType =>
  let name := name.getD MatchingRule.default.name
  match r.rules.get? name with
  | none => .error (.unknownRule name)
  | some rule =>
    if rule.supports valueType then .ok rule else .error (.ruleNotApplicable name valueType)

theorem lookup_standard_default (valueType : ValueType) :
    standard.lookup none valueType = .ok .default := rfl

end RuleRegistry

end Reconciler
