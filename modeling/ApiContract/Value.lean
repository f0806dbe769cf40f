import ApiContract.Binary64
import ApiContract.Calendar

/-!
# Document values

The values that a description in JSON or YAML is made of.  A mapping keeps its entries in
declaration order, and its keys may be any scalar.

`Value.same` is the one equality of the library: numbers are compared by value whatever their kind
(so one, one point zero and true are the same), mappings without regard to order.
-/

namespace ApiContract

/-- A value of a description.  Beyond what JSON has there are dates, times, bytes, sets and pairs
of values, which only YAML can write. -/
inductive Value where
  | null
  | bool (b : Bool)
  | int (n : Int)
  | float (x : Binary64)
  | str (s : String)
  | list (items : List Value)
  | map (entries : List (Value × Value))
  | date (d : Date)
  | time (t : Timestamp)
  | bytes (octets : List UInt8)
  | set (members : List Value)
  | pair (first second : Value)
  deriving Inhabited, Repr

/-- Entries of a mapping in declaration order. -/
abbrev Entries (α : Type := Value) := List (Value × α)

namespace Value

mutual

/-- Equality of values. -/
def same : Value → Value → Bool
  | .null, .null => true
  | .bool a, .bool b => a == b
  | .bool a, .int n => n == a.toInt
  | .bool a, .float x => x.isInt a.toInt
  | .int m, .bool b => m == b.toInt
  | .int m, .int n => m == n
  | .int m, .float x => x.isInt m
  | .float x, .bool b => x.isInt b.toInt
  | .float x, .int n => x.isInt n
  | .float x, .float y => x.same y
  | .str a, .str b => a == b
  | .list xs, .list ys => sameItems xs ys
  | .map xs, .map ys => xs.length == ys.length && sameEntries xs ys
  | .date a, .date b => a == b
  | .time a, .time b => a.same b
  | .bytes a, .bytes b => a == b
  | .set xs, .set ys => xs.length == ys.length && sameMembers xs ys
  | .pair a b, .pair c d => a.same c && b.same d
  | _, _ => false

/-- Equality of lists, item by item. -/
def sameItems : List Value → List Value → Bool
  | [], [] => true
  | x :: xs, y :: ys => x.same y && sameItems xs ys
  | _, _ => false

/-- Whether every entry has a partner with the same key and the same value. -/
def sameEntries : List (Value × Value) → List (Value × Value) → Bool
  | [], _ => true
  | (k, v) :: xs, ys => (ys.any fun e => k.same e.1 && v.same e.2) && sameEntries xs ys

/-- Whether every member has a partner. -/
def sameMembers : List Value → List Value → Bool
  | [], _ => true
  | x :: xs, ys => (ys.any fun y => x.same y) && sameMembers xs ys

end

@[simp] theorem same_str (a b : String) : (Value.str a).same (.str b) = (a == b) := by
  simp [same]

/-- Only a text is the same as a text. -/
theorem eq_str_of_same {v : Value} {s : String} (h : v.same (.str s) = true) : v = .str s := by
  cases v <;> simp_all [same]

/-- Words for the kinds of values in messages. -/
def kindName : Value → String
  | .null => "NoneType"
  | .bool _ => "bool"
  | .int _ => "int"
  | .float _ => "float"
  | .str _ => "str"
  | .list _ => "list"
  | .map _ => "dict"
  | .date _ => "date"
  | .time _ => "datetime"
  | .bytes _ => "bytes"
  | .set _ => "set"
  | .pair _ _ => "tuple"

def isNull : Value → Bool
  | .null => true
  | _ => false

/-- Whether a value counts as present: null, false, zero and what is empty do not. -/
def truthy : Value → Bool
  | .null => false
  | .bool b => b
  | .int n => n != 0
  | .float x => !x.isZero
  | .str s => !s.isEmpty
  | .list xs => !xs.isEmpty
  | .map es => !es.isEmpty
  | .date _ => true
  | .time _ => true
  | .bytes bs => !bs.isEmpty
  | .set xs => !xs.isEmpty
  | .pair _ _ => true

/-- Whether a value may be the key of an entry: anything that cannot change. -/
def isKey : Value → Bool
  | .list _ => false
  | .map _ => false
  | .set _ => false
  | .pair a b => a.isKey && b.isKey
  | _ => true

def asText? : Value → Option String
  | .str s => some s
  | _ => none

def asMap? : Value → Option Entries
  | .map es => some es
  | _ => none

end Value

/-! ## Entries of a mapping -/

namespace Entries

variable {α : Type}

/-- The value under a key. -/
def get? (es : Entries α) (key : Value) : Option α :=
  (es.find? fun e => e.1.same key).map (·.2)

/-- The value under a text key. -/
def field? (es : Entries α) (name : String) : Option α :=
  es.get? (.str name)

/-- The value under a text key, null when there is none. -/
def fieldD (es : Entries) (name : String) : Value :=
  (es.field? name).getD .null

/-- Whether a key is declared. -/
def has (es : Entries α) (key : Value) : Bool :=
  es.any fun e => e.1.same key

/-- Puts a value under a key.  A key that is declared keeps its place and its spelling; a new one
goes to the end. -/
def insert (es : Entries α) (key : Value) (value : α) : Entries α :=
  match es with
  | [] => [(key, value)]
  | e :: rest => if e.1.same key then (e.1, value) :: rest else e :: insert rest key value

/-- Entries put one after another into an empty mapping. -/
def ofList (es : Entries α) : Entries α :=
  es.foldl (fun acc e => insert acc e.1 e.2) []

/-- Puts a value under a text key. -/
def setField (es : Entries α) (name : String) (value : α) : Entries α :=
  insert es (.str name) value

def keys (es : Entries α) : List Value :=
  es.map (·.1)

end Entries

end ApiContract
