import ClaudeCodeConnect.Json.Parser
import Mathlib.Data.Char
import Mathlib.Data.List.Lex

/-!
# Writing values

`serde_json` writes the fields of a struct in the order of its declaration, and the members of a
`Value` in the order of their names: its map is a `BTreeMap`, in which the last of two members of
one name stands.

* `insertMember`, `mapOf` -- the map, as members in the order of their names.
* `Json.ordered` -- a value with each of its objects such a map.
* `Json.tree`, `Json.print` -- the text that is written of a value.
* `parseJson?_print` -- **what is written reads back**, if its numbers are written as numbers.
-/

namespace Connect

/-! ## Maps

A `serde_json::Map` holds its members in the order of their names, and of two with one name the
later. -/

section Maps

variable {α β : Type}

/-- `BTreeMap::insert`. -/
def insertMember (name : Text) (v : α) : List (Text × α) → List (Text × α)
  | [] => [(name, v)]
  | (name', v') :: rest =>
      if name = name' then (name, v) :: rest
      else if name < name' then (name, v) :: (name', v') :: rest
      else (name', v') :: insertMember name v rest

/-- Members inserted one after the other. -/
def mapOf (members : List (Text × α)) : List (Text × α) :=
  members.foldl (fun map m => insertMember m.1 m.2 map) []

lemma mem_insertMember {name : Text} {v : α} {members : List (Text × α)} {m : Text × α}
    (h : m ∈ insertMember name v members) : m = (name, v) ∨ m ∈ members := by
  induction members with
  | nil => exact Or.inl (List.mem_singleton.mp h)
  | cons m' rest ih =>
      obtain ⟨name', v'⟩ := m'
      rw [insertMember] at h
      split_ifs at h
      · exact (List.mem_cons.mp h).imp_right (List.mem_cons_of_mem _)
      · exact List.mem_cons.mp h
      · rcases List.mem_cons.mp h with rfl | h
        · exact Or.inr List.mem_cons_self
        · exact (ih h).imp_right (List.mem_cons_of_mem _)

lemma mapOf_concat (members : List (Text × α)) (m : Text × α) :
    mapOf (members ++ [m]) = insertMember m.1 m.2 (mapOf members) := by
  rw [mapOf, List.foldl_append]
  rfl

end Maps

/-! ## Values

What is written of a value: its tree, without blanks. -/

mutual

/-- A value as `serde_json` holds it: every object is a map. -/
def Json.ordered : Json → Json
  | .null => .null
  | .bool b => .bool b
  | .number literal => .number literal
  | .string s => .string s
  | .array items => .array (Json.orderedItems items)
  | .object members => .object (mapOf (Json.orderedMembers members))

/-- The same for the items of an array. -/
def Json.orderedItems : List Json → List Json
  | [] => []
  | v :: rest => v.ordered :: Json.orderedItems rest

/-- The same for the members of an object, before they are put in order. -/
def Json.orderedMembers : List (Text × Json) → List (Text × Json)
  | [] => []
  | (name, v) :: rest => (name, v.ordered) :: Json.orderedMembers rest

end

mutual

/-- Its numbers are written as numbers. -/
def Json.writable : Json → Bool
  | .null => true
  | .bool _ => true
  | .number literal => isNumber literal
  | .string _ => true
  | .array items => Json.writableItems items
  | .object members => Json.writableMembers members

/-- The same for the items of an array. -/
def Json.writableItems : List Json → Bool
  | [] => true
  | v :: rest => v.writable && Json.writableItems rest

/-- The same for the members of an object. -/
def Json.writableMembers : List (Text × Json) → Bool
  | [] => true
  | (_, v) :: rest => v.writable && Json.writableMembers rest

end

mutual

/-- What is written, as a tree. -/
def Json.tree : Json → Syntax
  | .null => .null
  | .bool b => .bool b
  | .number literal => if h : isNumber literal = true then .number literal h else .null
  | .string s => .string (escape s)
  | .array items => Syntax.compactArray (Json.trees items)
  | .object members => Syntax.compact (Json.memberTrees members)

/-- The trees of the items of an array. -/
def Json.trees : List Json → List Syntax
  | [] => []
  | v :: rest => v.tree :: Json.trees rest

/-- The trees of the members of an object. -/
def Json.memberTrees : List (Text × Json) → List (Text × Syntax)
  | [] => []
  | (name, v) :: rest => (name, v.tree) :: Json.memberTrees rest

end

/-- The text of a value, without blanks; it stands in for `serde_json::to_string`, which would write
a number as it holds it, where here it keeps its literal. -/
def Json.print (v : Json) : Text := v.tree.text

/-! ## What is written reads back

By induction on the value: the tree has it for its value, if every number is one. -/

mutual

lemma Json.tree_value? : ∀ {v : Json}, v.writable = true → v.tree.value? = some v
  | .null, _ => rfl
  | .bool _, _ => rfl
  | .number literal, h => by
      rw [Json.writable] at h
      rw [Json.tree, dif_pos h]
      rfl
  | .string s, _ => string_escape_value? s
  | .array items, h => by
      rw [Json.writable] at h
      exact Syntax.compactArray_value? (Json.trees_value? h)
  | .object members, h => by
      rw [Json.writable] at h
      exact Syntax.compact_value? (Json.memberTrees_value? h)

lemma Json.trees_value? : ∀ {items : List Json}, Json.writableItems items = true →
    List.Forall₂ (fun v j => v.value? = some j) (Json.trees items) items
  | [], _ => .nil
  | v :: rest, h => by
      rw [Json.writableItems, Bool.and_eq_true] at h
      exact .cons (Json.tree_value? h.1) (Json.trees_value? h.2)

lemma Json.memberTrees_value? : ∀ {members : List (Text × Json)},
    Json.writableMembers members = true → HaveValues (Json.memberTrees members) members
  | [], _ => .nil
  | (name, v) :: rest, h => by
      rw [Json.writableMembers, Bool.and_eq_true] at h
      exact .cons ⟨rfl, Json.tree_value? h.1⟩ (Json.memberTrees_value? h.2)

end

/-! ## Values in order

A value whose objects are maps can be written if it could before. -/

lemma mem_mapOf {α : Type} {members : List (Text × α)} {m : Text × α} (h : m ∈ mapOf members) :
    m ∈ members := by
  induction members using List.reverseRecOn with
  | nil => exact h
  | append_singleton members m' ih =>
      rw [mapOf_concat] at h
      rcases mem_insertMember h with rfl | h
      · exact List.mem_append_right _ (List.mem_singleton_self _)
      · exact List.mem_append_left _ (ih h)

lemma Json.writableMembers_iff {members : List (Text × Json)} :
    Json.writableMembers members = true ↔ ∀ m ∈ members, m.2.writable = true := by
  induction members with
  | nil => simp [Json.writableMembers]
  | cons m rest ih =>
      obtain ⟨name, v⟩ := m
      rw [Json.writableMembers, Bool.and_eq_true, ih, List.forall_mem_cons]

mutual

lemma Json.writable_ordered : ∀ {v : Json}, v.writable = true → v.ordered.writable = true
  | .null, _ => rfl
  | .bool _, _ => rfl
  | .number _, h => h
  | .string _, _ => rfl
  | .array items, h => by
      rw [Json.ordered, Json.writable]
      exact Json.writableItems_ordered h
  | .object members, h => by
      rw [Json.ordered, Json.writable, Json.writableMembers_iff]
      exact fun m hm => Json.writableMembers_ordered h m (mem_mapOf hm)

lemma Json.writableItems_ordered : ∀ {items : List Json}, Json.writableItems items = true →
    Json.writableItems (Json.orderedItems items) = true
  | [], _ => rfl
  | v :: rest, h => by
      rw [Json.writableItems, Bool.and_eq_true] at h
      rw [Json.orderedItems, Json.writableItems, Json.writable_ordered h.1,
        Json.writableItems_ordered h.2]
      rfl

lemma Json.writableMembers_ordered : ∀ {members : List (Text × Json)},
    Json.writableMembers members = true →
    ∀ m ∈ Json.orderedMembers members, m.2.writable = true
  | [], _, m, hm => absurd hm List.not_mem_nil
  | (name, v) :: rest, h, m, hm => by
      rw [Json.writableMembers, Bool.and_eq_true] at h
      rw [Json.orderedMembers] at hm
      rcases List.mem_cons.mp hm with rfl | hm
      · exact Json.writable_ordered h.1
      · exact Json.writableMembers_ordered h.2 m hm

end

/-! ## What is read can be written

A value that was read has numbers only where numbers were. -/

mutual

lemma Syntax.writable_value? : ∀ {s : Syntax} {v : Json}, s.value? = some v → v.writable = true
  | .null, v, h => by
      cases h
      rfl
  | .bool _, v, h => by
      cases h
      rfl
  | .number literal hliteral, v, h => by
      cases h
      exact hliteral
  | .string s, v, h => by
      obtain ⟨t, -, rfl⟩ := Option.map_eq_some_iff.mp h
      rfl
  | .emptyArray _, v, h => by
      cases h
      rfl
  | .array elements, v, h => by
      obtain ⟨items, hitems, rfl⟩ := Option.map_eq_some_iff.mp h
      exact Elements.writable_values? hitems
  | .emptyObject _, v, h => by
      cases h
      rfl
  | .object members, v, h => by
      obtain ⟨values, hvalues, rfl⟩ := Option.map_eq_some_iff.mp h
      exact Members.writable_values? hvalues

lemma Elements.writable_values? : ∀ {e : Elements} {items : List Json},
    e.values? = some items → Json.writableItems items = true
  | .last _ s _, items, h => by
      obtain ⟨v, hv, rfl⟩ := Option.map_eq_some_iff.mp h
      rw [Json.writableItems, Syntax.writable_value? hv]
      rfl
  | .more _ s _ rest, items, h => by
      obtain ⟨v, hv, h⟩ := Option.bind_eq_some_iff.mp h
      obtain ⟨vs, hvs, rfl⟩ := Option.map_eq_some_iff.mp h
      rw [Json.writableItems, Syntax.writable_value? hv, Elements.writable_values? hvs]
      rfl

lemma Members.writable_values? : ∀ {m : Members} {values : List (Text × Json)},
    m.values? = some values → Json.writableMembers values = true
  | .last _ name _ _ s _, values, h => by
      obtain ⟨k, -, h⟩ := Option.bind_eq_some_iff.mp h
      obtain ⟨v, hv, rfl⟩ := Option.map_eq_some_iff.mp h
      rw [Json.writableMembers, Syntax.writable_value? hv]
      rfl
  | .more _ name _ _ s _ rest, values, h => by
      obtain ⟨k, -, h⟩ := Option.bind_eq_some_iff.mp h
      obtain ⟨v, hv, h⟩ := Option.bind_eq_some_iff.mp h
      obtain ⟨vs, hvs, rfl⟩ := Option.map_eq_some_iff.mp h
      rw [Json.writableMembers, Syntax.writable_value? hv, Members.writable_values? hvs]
      rfl

end

/-- The numbers of a value that was read are numbers. -/
lemma writable_of_parseJson? {text : Text} {v : Json} (h : parseJson? text = some v) :
    v.writable = true := by
  rw [parseJson?, Option.bind_eq_some_iff] at h
  obtain ⟨d, -, hd⟩ := h
  exact Syntax.writable_value? hd

/-- **What is written reads back.** -/
theorem parseJson?_print {v : Json} (h : v.writable = true) : parseJson? v.print = some v := by
  rw [parseJson?, Json.print, parseDoc?_tree]
  exact Json.tree_value? h

end Connect
