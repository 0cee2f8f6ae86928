import ClaudeCodeConnect.Core.RustStr

/-!
# JSON values and structs read from them

* `Json` -- a value; a number is kept as its literal, an object as its members in order.
* `Json.get` -- `Value::get` with a name.
* `fieldsByName`, `fieldsByPosition` -- how a derived `Deserialize` finds the fields of a struct, in
  an object and in an array; `Json.fields` of a value.
-/

namespace Connect

/-- A JSON value. -/
inductive Json where
  | null
  | bool (b : Bool)
  | number (literal : Text)
  | string (s : Text)
  | array (items : List Json)
  | object (members : List (Text × Json))
  deriving Repr

/-- The fields of a struct among named members, in the order the struct declares them: other names
are skipped, a name that comes twice is an error. -/
def fieldsByName {α : Type} (names : List Text) (members : List (Text × α)) :
    Option (List (Option α)) :=
  if names.all fun name => members.countP (·.1 == name) ≤ 1 then
    some (names.map fun name => members.lookup name)
  else none

/-- The fields of a struct by position: the first `required` must be there, and nothing after the
last. -/
def fieldsByPosition {α : Type} (names : List Text) (required : ℕ) (items : List α) :
    Option (List (Option α)) :=
  if required ≤ items.length ∧ items.length ≤ names.length then
    some ((List.range names.length).map fun i => items[i]?)
  else none

namespace Json

/-- What is written of an integer. -/
def intLiteral (i : ℤ) : Text := (if i < 0 then ['-'] else []) ++ Text.toDigits i.natAbs

/-- `Value::is_null`. -/
def isNull : Json → Bool
  | null => true
  | _ => false

/-- `Value::as_str`. -/
def asStr : Json → Option Text
  | string s => some s
  | _ => none

/-- A `u32`: a number without fraction or exponent. -/
def asU32 : Json → Option UInt32
  | number literal => (Text.parseUnsigned UInt32.size literal).map UInt32.ofNat
  | _ => none

/-- A `Vec`. -/
def asVec {α : Type} (decode : Json → Option α) : Json → Option (List α)
  | array items => items.mapM decode
  | _ => none

/-- `Value::get` with a name: nothing of a value that is no object. -/
def get (name : Text) : Json → Option Json
  | object members => members.lookup name
  | _ => none

/-- The fields of a struct. -/
def fields (names : List Text) (required : ℕ) : Json → Option (List (Option Json))
  | object members => fieldsByName names members
  | array items => fieldsByPosition names required items
  | _ => none

/-- An `Option` field without a default: `null` is `None`. -/
def optional (field : Option Json) : Option Json := field.filter fun v => !v.isNull

@[simp] lemma isNull_eq_false_iff {v : Json} : v.isNull = false ↔ v ≠ null := by
  cases v <;> simp [isNull]

end Json

end Connect
