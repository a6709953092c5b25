/-
The schema of a resource: the object classes that the connector reports, and the object types that
are declared on top of them.

* `Schema.ofNative`: the classes alone;
* look-ups: classes by name, types by kind and intent, the default type of a kind;
* `Schema.compose`: the definition of an object from its class, its type and its auxiliary classes.

Main statements:
* `Schema.findClass?_isSome_iff`: a class is found when some name agrees;
* `Schema.compose_structural`: what a composed definition is built on.
-/
import Reconciler.ObjectDefinition

namespace Reconciler

/-- Object classes and object types of a resource. -/
structure Schema where
  classes : List ObjectClass := []
  types : List ObjectType := []
deriving DecidableEq, Inhabited

namespace Schema

/-- The classes that a connector reports, without types. -/
def ofNative (n : NativeSchema) : Schema where
  classes := n.classes.map ObjectClass.ofNative

/-- Whether there are no classes. -/
def isEmpty (s : Schema) : Bool := s.classes.isEmpty

/-- The class with exactly this name, or else the first whose name agrees with it. -/
def findClass? (s : Schema) (name : ItemName) : Option ObjectClass :=
  ItemName.find? ObjectClass.name s.classes name

/-- The type of this kind and intent. -/
def findType? (s : Schema) (id : TypeId) : Option ObjectType := s.types.find? fun t => t.id == id

/-- The types of a kind. -/
def typesOfKind (s : Schema) (kind : ObjectKind) : List ObjectType :=
  s.types.filter fun t => t.id.kind == kind

/-- The default type of a kind: the one marked so, or else the only one. -/
def defaultType? (s : Schema) (kind : ObjectKind) : Option ObjectType :=
  let ofKind := s.typesOfKind kind
  ofKind.find? (·.isDefault) <|>
    match ofKind with
    | [only] => some only
    | _ => none

/-- The type of a kind and an intent; without an intent the default type of the kind. -/
def findDefinition? (s : Schema) (kind : ObjectKind) (intent : Option String) :
    Option ObjectDefinition :=
  let found := match intent with
    | some intent => s.findType? ⟨kind, intent⟩
    | none => s.defaultType? kind
  found.map .ofType

/-- An attribute of the type of a kind and an intent. -/
def findAttribute? (s : Schema) (kind : ObjectKind) (intent : Option String) (name : ItemName) :
    Option AttributeDefinition :=
  s.findDefinition? kind intent >>= fun d => d.findAttribute? name

theorem findClass?_isSome_iff {s : Schema} {name : ItemName} :
    (s.findClass? name).isSome ↔ ∃ c ∈ s.classes, c.name.agrees name = true :=
  ItemName.find?_isSome_iff

/-! ### Composed definitions -/

/-- The class or type that an object is defined by. -/
def structural (s : Schema) (className : ItemName) (typeId : Option TypeId) :
    Except SchemaViolation ObjectDefinition :=
  match typeId with
  | some id =>
    match s.findType? id with
    | none => .error (.unknownType id)
    | some t =>
      if t.objectClass.name.agrees className then .ok (.ofType t)
      else .error (.classMismatch id t.objectClass.name className)
  | none =>
    match s.findClass? className with
    | none => .error (.unknownClass className)
    | some c => .ok (.ofClass c)

/-- Names, and those of a set that agree with none of the names before them. -/
def addNames (names : List ItemName) (more : SortedSet ItemName) : List ItemName :=
  more.toList.foldl
    (fun acc name => if acc.any (·.agrees name) then acc else acc ++ [name]) names

/-- The auxiliary class with a name. -/
def auxiliaryClass (s : Schema) (name : ItemName) : Except SchemaViolation ObjectClass :=
  match s.findClass? name with
  | none => .error (.unknownAuxiliary name)
  | some c => .ok c

/-- The definition of an object of a class, optionally of a type, that also has the given auxiliary
classes besides those of its type. -/
def compose (s : Schema) (className : ItemName) (typeId : Option TypeId)
    (auxiliary : SortedSet ItemName) : Except SchemaViolation CompositeDefinition := do
  let structural ← s.structural className typeId
  let classes ← (addNames structural.auxiliaryClasses auxiliary).mapM s.auxiliaryClass
  return { structural := structural, auxiliary := classes }

theorem compose_structural {s : Schema} {className : ItemName} {typeId : Option TypeId}
    {auxiliary : SortedSet ItemName} {d : CompositeDefinition}
    (h : s.compose className typeId auxiliary = .ok d) :
    s.structural className typeId = .ok d.structural := by
  unfold compose at h
  cases hs : s.structural className typeId with
  | error e => rw [hs] at h; cases h
  | ok structural =>
    rw [hs] at h
    simp only [bind, Except.bind] at h
    split at h
    · cases h
    · cases h; rfl

/-- A schema with all of its classes and types, for inspection. -/
def toJson (s : Schema) : Json :=
  .record [
    ("classes", .arr (s.classes.map (·.toJson))), ("types", .arr (s.types.map (·.toJson))),
    ("empty", .bool s.isEmpty)]

end Schema

end Reconciler
