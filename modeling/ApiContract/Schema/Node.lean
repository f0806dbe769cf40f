import ApiContract.Value

/-!
# Schema nodes

The schemas that the library builds are trees of four kinds of node: a schema taken from the
description as it stands, a text pinned to one value, an object with named properties, and a
choice of which exactly one branch applies.  `Node.toValue` is the schema as a value.

Keeping what was taken from the description apart from what was built lets statements about the
built part speak of the taken part as opaque.
-/

namespace ApiContract.Schema

/-- The parts of an object schema: its properties in order, the names that must be present, and
the schema of every property that is not named. -/
structure ObjectNode (ν : Type) where
  properties : List (Value × ν)
  required : List Value
  additional : Value
  deriving Repr

namespace ObjectNode

variable {ν : Type}

/-- No property is named and none is admitted. -/
def closed : ObjectNode ν := ⟨[], [], .bool false⟩

/-- No property is named and every one is admitted. -/
def unrestricted : ObjectNode ν := ⟨[], [], .bool true⟩

/-- Names a property, or gives a named one another schema. -/
def set (o : ObjectNode ν) (name : Value) (schema : ν) : ObjectNode ν :=
  { o with properties := Entries.insert o.properties name schema }

/-- Adds a name to those that must be present, unless it is one of them. -/
def require (o : ObjectNode ν) (name : Value) : ObjectNode ν :=
  if o.required.any (·.same name) then o else { o with required := o.required ++ [name] }

/-- Adds names one after another. -/
def requireAll (o : ObjectNode ν) (names : List Value) : ObjectNode ν :=
  names.foldl require o

/-- The schema of a named property. -/
def property? (o : ObjectNode ν) (name : String) : Option ν :=
  Entries.field? o.properties name

@[simp] theorem properties_require (o : ObjectNode ν) (name : Value) :
    (o.require name).properties = o.properties := by
  unfold require; split <;> rfl

@[simp] theorem required_set (o : ObjectNode ν) (name : Value) (schema : ν) :
    (o.set name schema).required = o.required := rfl

@[simp] theorem additional_require (o : ObjectNode ν) (name : Value) :
    (o.require name).additional = o.additional := by
  unfold require; split <;> rfl

end ObjectNode

/-- A schema node. -/
inductive Node where
  | given (schema : Value)
  | pinned (value : Value)
  | object (o : ObjectNode Node)
  | oneOf (branches : List Node)
  deriving Repr

namespace Node

mutual

/-- The schema as a value. -/
def toValue : Node → Value
  | .given schema => schema
  | .pinned value => .map [(.str "type", .str "string"), (.str "enum", .list [value])]
  | .object o =>
      .map [(.str "type", .str "object"), (.str "properties", .map (entriesToValues o.properties)),
        (.str "required", .list o.required), (.str "additionalProperties", o.additional)]
  | .oneOf branches => .map [(.str "oneOf", .list (toValues branches))]

def toValues : List Node → List Value
  | [] => []
  | n :: ns => n.toValue :: toValues ns

def entriesToValues : List (Value × Node) → List (Value × Value)
  | [] => []
  | (k, n) :: es => (k, n.toValue) :: entriesToValues es

end

/-- The parts of a node that is an object. -/
def asObject? : Node → Option (ObjectNode Node)
  | .object o => some o
  | _ => none

theorem toValues_eq_map (ns : List Node) : toValues ns = ns.map toValue := by
  induction ns with
  | nil => rfl
  | cons n ns ih => simp [toValues, ih]

theorem entriesToValues_eq_map (es : List (Value × Node)) :
    entriesToValues es = es.map fun e => (e.1, e.2.toValue) := by
  induction es with
  | nil => rfl
  | cons e es ih => simp [entriesToValues, ih]

end Node

end ApiContract.Schema
