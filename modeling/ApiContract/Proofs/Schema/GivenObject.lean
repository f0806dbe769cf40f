import ApiContract.Proofs.Schema.ContentBranch
import ApiContract.Proofs.Schema.Success
import ApiContract.Proofs.Value.Update
import ApiContract.Schema.Edit

/-!
# Object schemas that are given as values

A schema that was built can also be given as the value that it is.  Editing the value then comes to
the same as the step on the node that the value stands for; so the branches of a body are the same
whether their base is a node or a value.
-/

namespace ApiContract.Schema

variable {o base headers : ObjectNode Node} {names : List Value}

namespace Node

theorem entriesToValues_insert (es : List (Value × Node)) (key : Value) (n : Node) :
    entriesToValues (Entries.insert es key n) =
      Entries.insert (entriesToValues es) key n.toValue := by
  induction es with
  | nil => rfl
  | cons entry rest ih =>
      rw [Entries.insert, entriesToValues, Entries.insert]
      split
      · rfl
      · rw [entriesToValues, ih]

theorem field?_entriesToValues (es : List (Value × Node)) (name : String) :
    Entries.field? (entriesToValues es) name = (Entries.field? es name).map toValue := by
  rw [entriesToValues_eq_map]
  unfold Entries.field? Entries.get?
  rw [List.find?_map, Option.map_map, Option.map_map]
  rfl

end Node

/-! ## Steps on a value -/

theorem putField_toValues (properties : List (Value × Node)) (name : String) (n : Node) :
    putField name n.toValue (.map (Node.entriesToValues properties)) =
      .ok (.map (Node.entriesToValues (Entries.insert properties (.str name) n))) := by
  rw [putField, Entries.setField, Node.entriesToValues_insert]

/-- An edit of the properties of a node is an edit of the field that holds them. -/
theorem editField_properties {edit : Value → Except Fault Value} {properties : List (Value × Node)}
    (hedit : edit (.map (Node.entriesToValues o.properties)) =
      .ok (.map (Node.entriesToValues properties))) :
    editField "properties" edit (Node.object o).toValue =
      .ok (Node.object { o with properties }).toValue := by
  simp [editField, Node.toValue, Entries.field?, Entries.get?, Entries.setField, Entries.insert,
    orMisfit, hedit, bind, Except.bind, pure, Except.pure]

theorem addNames_list (o : ObjectNode Node) (names : List Value) :
    addNames (.list o.required) names = .ok (.list (o.requireAll names).required) := by
  induction names generalizing o with
  | nil => rfl
  | cons name rest ih =>
      have hstep : addName (.list o.required) name = .ok (.list (o.require name).required) := by
        simp only [addName, Value.holds?, orMisfit, ok_bind, ObjectNode.require]
        split <;> rfl
      rw [addNames, hstep, ok_bind, ih]
      rfl

theorem requireAll_eq (o : ObjectNode Node) (names : List Value) :
    o.requireAll names = { o with required := (o.requireAll names).required } := by
  have hadditional : (o.requireAll names).additional = o.additional := by
    induction names generalizing o with
    | nil => rfl
    | cons name rest ih => exact (ih (o.require name)).trans (o.additional_require name)
  calc o.requireAll names
      = ⟨(o.requireAll names).properties, (o.requireAll names).required,
          (o.requireAll names).additional⟩ := rfl
    _ = _ := by rw [ObjectNode.properties_requireAll, hadditional]

theorem requireNames_toValue (o : ObjectNode Node) (names : List Value) :
    requireNames names (Node.object o).toValue = .ok (Node.object (o.requireAll names)).toValue := by
  rw [requireAll_eq]
  simp [requireNames, editField, Node.toValue, Entries.field?, Entries.get?, Entries.setField,
    Entries.insert, orMisfit, addNames_list, bind, Except.bind, pure, Except.pure]

theorem pinContentType_toValue (headers : ObjectNode Node) (required : Bool)
    (contentType : String) :
    pinContentType required contentType (Node.object headers).toValue =
      .ok (Node.object (pinnedHeaders headers required contentType)).toValue := by
  rw [pinContentType, editField_properties (putField_toValues _ _ _), ok_bind]
  cases required with
  | false => rfl
  | true => exact requireNames_toValue _ _

/-! ## Branches -/

/-- An edit of a node that is a property is an edit of the field that holds the property. -/
theorem editField_toValues {edit : Value → Except Fault Value} {name : String}
    {properties : List (Value × Node)} {n edited : Node}
    (hproperty : Entries.field? properties name = some n)
    (hedit : edit n.toValue = .ok edited.toValue) :
    editField name edit (.map (Node.entriesToValues properties)) =
      .ok (.map (Node.entriesToValues (Entries.insert properties (.str name) edited))) := by
  rw [editField, Node.field?_entriesToValues, hproperty, Node.entriesToValues_insert]
  simp only [Option.map_some, orMisfit, ok_bind, hedit]
  rfl

/-- A value that stands for a message is given content like the message. -/
theorem editWithContent_toValue (hheaders : base.property? "headers" = some (.object headers))
    (required : Bool) (variant : ContentVariant) :
    editWithContent required variant (Node.object base).toValue =
      .ok (Node.object (withContent base required variant)).toValue := by
  have hbucket : headersOf base = headers := by
    rw [headersOf, hheaders]
    rfl
  have hhas : Entries.has base.properties (.str "headers") = true :=
    Entries.has_str_of_field? hheaders
  have hother : "body" ≠ "headers" := by decide
  have hbody : Entries.field? (Entries.insert base.properties (.str "body")
      (Node.given variant.schema)) "headers" = some (.object headers) := by
    rw [Entries.field?_insert_of_ne (Ne.symm hother)]
    exact hheaders
  have hcarrying : editField "properties" (fun properties => do
      let withBody ← putField "body" variant.schema properties
      editField "headers" (pinContentType required variant.contentType) withBody)
        (Node.object base).toValue = .ok (Node.object (carrying base required variant)).toValue := by
    rw [carrying, hbucket]
    apply editField_properties
    have hput := putField_toValues base.properties "body" (.given variant.schema)
    rw [Node.toValue] at hput
    rw [hput, ok_bind, editField_toValues hbody (pinContentType_toValue _ _ _),
      Entries.insert_comm_of_has hother hhas]
    rfl
  rw [editWithContent, hcarrying, ok_bind, withContent_eq]
  cases required with
  | false => rfl
  | true => exact requireNames_toValue _ _

theorem editBranches_toValue (hheaders : base.property? "headers" = some (.object headers))
    (body : Body) :
    editBranches (Node.object base).toValue body =
      .ok ((bodyBranches base body).map fun branch => (Node.object branch).toValue) := by
  simp only [editBranches, editWithContent_toValue hheaders]
  rw [bodyBranches, List.map_map]
  exact List.mapM_pure

end ApiContract.Schema
