import ApiContract.Proofs.Schema.Inheritance
import ApiContract.Schema.Component
import ApiContract.Schema.PathItem

/-!
# Well-shaped descriptions

The builders read a description without a schema of its own.  What they need of it is a matter of
kinds alone: whatever is declared where they look for a mapping is a mapping or null, and all keys
are texts.  Everything else, such as schemas, names, locations and flags, may be of any kind.

Every predicate here is a function, so it can be evaluated on a description.
-/

namespace ApiContract

namespace Value

mutual

/-- Whether all keys of all mappings in a value are texts. -/
def hasTextKeys : Value → Bool
  | .list xs => allHaveTextKeys xs
  | .map es => entriesHaveTextKeys es
  | .pair a b => a.hasTextKeys && b.hasTextKeys
  | _ => true

def allHaveTextKeys : List Value → Bool
  | [] => true
  | x :: xs => x.hasTextKeys && allHaveTextKeys xs

def entriesHaveTextKeys : List (Value × Value) → Bool
  | [] => true
  | (k, v) :: es => k.asText?.isSome && v.hasTextKeys && entriesHaveTextKeys es

end

theorem hasTextKeys_list_iff {xs : List Value} :
    (Value.list xs).hasTextKeys = true ↔ ∀ x ∈ xs, x.hasTextKeys = true := by
  rw [hasTextKeys]
  induction xs with
  | nil => simp [allHaveTextKeys]
  | cons x xs ih => simp [allHaveTextKeys, ih]

theorem hasTextKeys_map_iff {es : Entries} :
    (Value.map es).hasTextKeys = true ↔
      ∀ entry ∈ es, (∃ name, entry.1 = .str name) ∧ entry.2.hasTextKeys = true := by
  have hkey : ∀ key : Value, key.asText?.isSome = true ↔ ∃ name, key = .str name := by
    intro key
    cases key <;> simp [asText?]
  rw [hasTextKeys]
  induction es with
  | nil => simp [entriesHaveTextKeys]
  | cons entry es ih => simp [entriesHaveTextKeys, ih, hkey]

end Value

namespace Schema

theorem hasTextKeys_inherited : Inherited (·.hasTextKeys = true) where
  null := rfl
  item hlist hx := Value.hasTextKeys_list_iff.mp hlist _ hx
  member hmap hentry := (Value.hasTextKeys_map_iff.mp hmap _ hentry).2
  first hpair := by
    rw [Value.hasTextKeys, Bool.and_eq_true] at hpair
    exact hpair.1
  second hpair := by
    rw [Value.hasTextKeys, Bool.and_eq_true] at hpair
    exact hpair.2

/-- Whether a value is null or a mapping. -/
def isRecord (v : Value) : Bool := v.isNull || v.asMap?.isSome

def mediaTypeIsShaped (media : Value) : Bool :=
  isRecord media && isRecord (memberIn media "encoding") &&
    (entriesIn (memberIn media "encoding")).all (isRecord ·.2)

/-- A parameter or a header.  Of its content only the first media type is looked at. -/
def declarationIsShaped (declaration : Value) : Bool :=
  isRecord declaration && isRecord (memberIn declaration "content") &&
    (entriesIn (memberIn declaration "content")).head?.all (mediaTypeIsShaped ·.2)

def parametersAreShaped (declared : Value) : Bool := (declarations declared).all declarationIsShaped

def responseIsShaped (response : Value) : Bool :=
  isRecord response && isRecord (memberIn response "headers") &&
    (entriesIn (memberIn response "headers")).all (declarationIsShaped ·.2)

def operationIsShaped (declaration : Value) : Bool :=
  isRecord declaration && parametersAreShaped (memberIn declaration "parameters") &&
    isRecord (memberIn declaration "requestBody") && isRecord (memberIn declaration "responses") &&
    (entriesIn (memberIn declaration "responses")).all
      fun entry => isExtension entry.1 || responseIsShaped entry.2

def pathItemIsShaped (pathItem : Value) : Bool :=
  isRecord pathItem && parametersAreShaped (memberIn pathItem "parameters") &&
    methodNames.all fun method => operationIsShaped (memberIn pathItem method)

/-- The paths or the webhooks of a description. -/
def collectionIsShaped (declared : Value) : Bool :=
  isRecord declared &&
    (entriesIn declared).all fun entry => isExtension entry.1 || pathItemIsShaped entry.2

def componentIsShaped : ComponentKind → Value → Bool
  | .schemas, _ => true
  | .responses, declaration => responseIsShaped declaration
  | .parameters, declaration | .headers, declaration => declarationIsShaped declaration
  | .requestBodies, declaration => isRecord declaration

/-- A field of the components.  One that is no kind of component may be anything. -/
def kindIsShaped (field members : Value) : Bool :=
  match ComponentKind.ofName? field with
  | none => true
  | some kind => isRecord members && (entriesIn members).all (componentIsShaped kind ·.2)

def componentsAreShaped (components : Value) : Bool :=
  isRecord components && (entriesIn components).all fun entry => kindIsShaped entry.1 entry.2

/-- Whether a description is well-shaped. -/
def isWellShaped (document : Value) : Bool :=
  isRecord document && document.hasTextKeys &&
    Collection.all.all (fun collection =>
      collectionIsShaped (memberIn document collection.field)) &&
    componentsAreShaped (memberIn document "components")

/-- The parameters that a description declares: those of path items, of operations and of the
components. -/
inductive DeclaresParameter (document : Value) : Value → Prop
  | pathItem {collection : Collection} {entry : Value × Value} {declaration : Value}
      (hentry : entry ∈ entriesIn (memberIn document collection.field))
      (hdeclared : declaration ∈ declarations (memberIn entry.2 "parameters")) :
      DeclaresParameter document declaration
  | operation {collection : Collection} {entry : Value × Value} {method : String}
      {declaration : Value} (hentry : entry ∈ entriesIn (memberIn document collection.field))
      (hdeclared : declaration ∈ declarations (memberIn (memberIn entry.2 method) "parameters")) :
      DeclaresParameter document declaration
  | component {members : Value} {entry : Value × Value}
      (hmembers : (.str ComponentKind.parameters.name, members) ∈
        entriesIn (memberIn document "components"))
      (hentry : entry ∈ entriesIn members) : DeclaresParameter document entry.2

/-- Whether the location that a parameter declares can stand in a message. -/
def locationIsQuotable (declaration : Value) : Bool := (memberIn declaration "in").isQuotable

/-! ## Parts of a well-shaped value -/

variable {v : Value} {name : String}

theorem isRecord_iff : isRecord v = true ↔ v = .null ∨ ∃ entries, v = .map entries := by
  cases v <;> simp [isRecord, Value.isNull, Value.asMap?]

theorem exists_map_of_isRecord (hrecord : isRecord v = true) (hpresent : v.isNull = false) :
    ∃ entries, v = .map entries := by
  rcases isRecord_iff.mp hrecord with rfl | hmap
  · simp [Value.isNull] at hpresent
  · exact hmap

theorem exists_map_of_truthy (hrecord : isRecord v = true) (htruthy : v.truthy = true) :
    ∃ entries, v = .map entries := by
  apply exists_map_of_isRecord hrecord
  cases v <;> simp_all [Value.truthy, Value.isNull]

/-- A declaration that is there is a mapping. -/
theorem exists_map_of_declarationIsShaped (hshaped : declarationIsShaped v = true)
    (hpresent : v.isNull = false) : ∃ entries, v = .map entries := by
  simp only [declarationIsShaped, Bool.and_eq_true] at hshaped
  exact exists_map_of_isRecord hshaped.1.1 hpresent

/-- The keys of a value whose keys are texts. -/
theorem exists_text_of_mem_entriesIn {entry : Value × Value} (htext : v.hasTextKeys = true)
    (hentry : entry ∈ entriesIn v) : ∃ name, entry.1 = .str name := by
  cases v with
  | map es => exact (Value.hasTextKeys_map_iff.mp htext _ hentry).1
  | _ => simp [entriesIn, Value.asMap?] at hentry

theorem hasTextKeys_entriesIn (htext : v.hasTextKeys = true) :
    (Value.map (entriesIn v)).hasTextKeys = true := by
  cases v with
  | map es => exact htext
  | _ => rfl

theorem isWellShaped_iff {document : Value} :
    isWellShaped document = true ↔ isRecord document = true ∧ document.hasTextKeys = true ∧
      (∀ collection : Collection,
        collectionIsShaped (memberIn document collection.field) = true) ∧
      componentsAreShaped (memberIn document "components") = true := by
  simp only [isWellShaped, Bool.and_eq_true, List.all_eq_true, and_assoc]
  refine and_congr_right fun _ => and_congr_right fun _ => and_congr_left fun _ => ?_
  constructor
  · intro hall collection
    exact hall collection (by cases collection <;> simp [Collection.all])
  · intro hall collection _
    exact hall collection

/-- The locations of all declared parameters can stand in a message. -/
def LocationsAreQuotable (document : Value) : Prop :=
  ∀ declaration, DeclaresParameter document declaration → locationIsQuotable declaration = true

/-- In a description that can stand in a message every location can. -/
theorem locationsAreQuotable_of_isQuotable {document : Value}
    (hquotable : document.isQuotable = true) : LocationsAreQuotable document := by
  have inherited := isQuotable_inherited
  intro declaration hdeclares
  apply inherited.memberIn
  cases hdeclares with
  | pathItem hentry hdeclared =>
      have hpathItem := inherited.of_mem_entriesIn (inherited.memberIn hquotable) hentry
      exact inherited.of_mem_declarations (inherited.memberIn hpathItem) hdeclared
  | operation hentry hdeclared =>
      have hpathItem := inherited.of_mem_entriesIn (inherited.memberIn hquotable) hentry
      exact inherited.of_mem_declarations (inherited.memberIn (inherited.memberIn hpathItem))
        hdeclared
  | component hmembers hentry =>
      have hkind := inherited.of_mem_entriesIn (inherited.memberIn hquotable) hmembers
      exact inherited.of_mem_entriesIn hkind hentry

end Schema

end ApiContract
