import ClaudeCodeConnect.Json.Syntax
import Mathlib.Data.List.Perm.Basic
import Mathlib.Data.Option.Basic

/-!
# The same value, spelled differently

* `Json.Same` -- the same value: objects may list their members in different orders.
* `Json.Same.fields` -- a struct finds the same fields in both; a decoding that is made of such
  steps gives one result for both.
* `Syntax.fields`, `SameValue` -- the same of texts, where also blanks and escapes may differ.
-/

namespace Connect

/-! ## Values

Two values are the same up to the order in which objects have their members, at every depth. -/

mutual

/-- The same value. -/
inductive Json.Same : Json → Json → Prop
  | null : Json.Same .null .null
  | bool (b : Bool) : Json.Same (.bool b) (.bool b)
  | number (literal : Text) : Json.Same (.number literal) (.number literal)
  | string (s : Text) : Json.Same (.string s) (.string s)
  | array {items items' : List Json} : SameItems items items' →
      Json.Same (.array items) (.array items')
  | object {members members' : List (Text × Json)} : SameMembers members members' →
      Json.Same (.object members) (.object members')

/-- The same elements, in order. -/
inductive SameItems : List Json → List Json → Prop
  | nil : SameItems [] []
  | cons {v v' : Json} {rest rest' : List Json} : Json.Same v v' → SameItems rest rest' →
      SameItems (v :: rest) (v' :: rest')

/-- The same members, in any order. -/
inductive SameMembers : List (Text × Json) → List (Text × Json) → Prop
  | nil : SameMembers [] []
  | cons {name : Text} {v v' : Json} {rest rest' : List (Text × Json)} : Json.Same v v' →
      SameMembers rest rest' → SameMembers ((name, v) :: rest) ((name, v') :: rest')
  | perm {members members' members'' : List (Text × Json)} : SameMembers members members' →
      members'.Perm members'' → SameMembers members members''

end

mutual

lemma Json.Same.refl : ∀ v : Json, v.Same v
  | .null => .null
  | .bool b => .bool b
  | .number literal => .number literal
  | .string s => .string s
  | .array items => .array (SameItems.refl items)
  | .object members => .object (SameMembers.refl members)

lemma SameItems.refl : ∀ items : List Json, SameItems items items
  | [] => .nil
  | v :: rest => .cons (Json.Same.refl v) (SameItems.refl rest)

lemma SameMembers.refl : ∀ members : List (Text × Json), SameMembers members members
  | [] => .nil
  | (_, v) :: rest => .cons (Json.Same.refl v) (SameMembers.refl rest)

end

/-! ## Fields

A struct finds the same fields in both, or in neither. -/

section

variable {α β : Type} {R : α → β → Prop}

/-- Members of the same names in the same order, their values related. -/
abbrev MembersRel (R : α → β → Prop) : List (Text × α) → List (Text × β) → Prop :=
  List.Forall₂ fun m m' => m.1 = m'.1 ∧ R m.2 m'.2

/-- Fields that are there in both or in neither, their values related. -/
abbrev FieldsRel (R : α → β → Prop) : Option (List (Option α)) → Option (List (Option β)) → Prop :=
  Option.Rel (List.Forall₂ (Option.Rel R))

lemma MembersRel.countP {ms : List (Text × α)} {ms' : List (Text × β)} (h : MembersRel R ms ms')
    (name : Text) : ms.countP (·.1 == name) = ms'.countP (·.1 == name) := by
  induction h with
  | nil => rfl
  | cons hm _ ih => rw [List.countP_cons, List.countP_cons, ih, hm.1]

lemma MembersRel.lookup {ms : List (Text × α)} {ms' : List (Text × β)} (h : MembersRel R ms ms')
    (name : Text) : Option.Rel R (ms.lookup name) (ms'.lookup name) := by
  induction h with
  | nil => exact .none
  | @cons m m' _ _ hm _ ih =>
      obtain ⟨name', v⟩ := m
      obtain ⟨name'', v'⟩ := m'
      obtain ⟨rfl, hv⟩ := hm
      rw [List.lookup_cons, List.lookup_cons]
      cases name == name' with
      | true => exact .some hv
      | false => exact ih

lemma MembersRel.fieldsByName {ms : List (Text × α)} {ms' : List (Text × β)}
    (h : MembersRel R ms ms') (names : List Text) :
    FieldsRel R (fieldsByName names ms) (fieldsByName names ms') := by
  simp only [Connect.fieldsByName, h.countP]
  split_ifs
  · refine .some ?_
    rw [List.forall₂_map_left_iff, List.forall₂_map_right_iff, List.forall₂_same]
    exact fun name _ => h.lookup name
  · exact .none

lemma getElem?_rel {items : List α} {items' : List β} (h : List.Forall₂ R items items') (i : ℕ) :
    Option.Rel R items[i]? items'[i]? := by
  induction h generalizing i with
  | nil => exact .none
  | cons hv _ ih =>
      cases i with
      | zero => exact .some hv
      | succ i => exact ih i

lemma fieldsByPosition_rel {items : List α} {items' : List β} (h : List.Forall₂ R items items')
    (names : List Text) (required : ℕ) :
    FieldsRel R (fieldsByPosition names required items)
      (fieldsByPosition names required items') := by
  rw [fieldsByPosition, fieldsByPosition, h.length_eq]
  split_ifs
  · refine .some ?_
    rw [List.forall₂_map_left_iff, List.forall₂_map_right_iff, List.forall₂_same]
    exact fun i _ => getElem?_rel h i
  · exact .none

/-- A name that comes once is looked up wherever it stands. -/
lemma lookup_perm {ms ms' : List (Text × α)} (h : ms.Perm ms') {name : Text}
    (honce : ms.countP (·.1 == name) ≤ 1) : ms.lookup name = ms'.lookup name := by
  induction h with
  | nil => rfl
  | cons m _ ih =>
      obtain ⟨name', v⟩ := m
      rw [List.lookup_cons, List.lookup_cons]
      cases hname : name == name' with
      | true => rfl
      | false =>
          refine ih (le_trans ?_ honce)
          rw [List.countP_cons]
          exact Nat.le_add_right _ _
  | swap m m' ms =>
      obtain ⟨name', v⟩ := m
      obtain ⟨name'', v'⟩ := m'
      simp only [List.lookup_cons]
      cases hname : name == name' with
      | false => rfl
      | true =>
          cases hname' : name == name'' with
          | false => rfl
          | true =>
              -- both are the name, which comes once
              rw [beq_iff_eq] at hname hname'
              subst hname hname'
              simp at honce
  | trans hfirst _ ih ih' =>
      exact (ih honce).trans (ih' ((hfirst.countP_eq _).symm.trans_le honce))

lemma fieldsByName_perm {ms ms' : List (Text × α)} (h : ms.Perm ms') (names : List Text) :
    fieldsByName names ms = fieldsByName names ms' := by
  have hcount : ∀ name, ms.countP (·.1 == name) = ms'.countP (·.1 == name) := fun name =>
    h.countP_eq _
  simp only [fieldsByName, hcount]
  split_ifs with hall
  · refine congrArg some (List.map_congr_left fun name hname => lookup_perm h ?_)
    rw [hcount]
    exact of_decide_eq_true (List.all_eq_true.mp hall name hname)
  · rfl

end

lemma SameItems.forall₂ : ∀ {items items' : List Json}, SameItems items items' →
    List.Forall₂ Json.Same items items'
  | _, _, .nil => .nil
  | _, _, .cons hv hrest => .cons hv hrest.forall₂

/-- The same members are the same in order, and then put in another. -/
lemma SameMembers.exists_perm : ∀ {members members' : List (Text × Json)},
    SameMembers members members' →
    ∃ sorted, MembersRel Json.Same members sorted ∧ sorted.Perm members'
  | _, _, .nil => ⟨[], .nil, .refl _⟩
  | _, _, .cons hv hrest => by
      obtain ⟨sorted, hrel, hperm⟩ := hrest.exists_perm
      refine ⟨_ :: sorted, ?_, hperm.cons _⟩
      exact .cons ⟨rfl, hv⟩ hrel
  | _, _, .perm hsame hperm => by
      obtain ⟨sorted, hrel, hperm'⟩ := hsame.exists_perm
      exact ⟨sorted, hrel, hperm'.trans hperm⟩

/-- **A struct finds the same fields in the same value**, in whatever order they come. -/
theorem Json.Same.fields {v v' : Json} (h : v.Same v') (names : List Text) (required : ℕ) :
    FieldsRel Json.Same (v.fields names required) (v'.fields names required) := by
  cases h with
  | array hitems => exact fieldsByPosition_rel hitems.forall₂ names required
  | object hmembers =>
      obtain ⟨sorted, hrel, hperm⟩ := hmembers.exists_perm
      show FieldsRel _ (fieldsByName names _) (fieldsByName names _)
      rw [← fieldsByName_perm hperm]
      exact hrel.fieldsByName names
  | _ => exact .none

/-! ## Texts

Two texts of the same value may differ in blanks, in escapes and in the order of members. -/

/-- The fields of a struct, as they are written. -/
def Syntax.fields (names : List Text) (required : ℕ) : Syntax → Option (List (Option Syntax))
  | .object members => members.toList?.bind (fieldsByName names)
  | .emptyObject _ => fieldsByName names []
  | .array elements => fieldsByPosition names required elements.toList
  | .emptyArray _ => fieldsByPosition names required []
  | _ => none

/-- The text has this value. -/
abbrev Syntax.HasValue (s : Syntax) (v : Json) : Prop := s.value? = some v

/-- Texts that have the same value. -/
def SameValue (s s' : Syntax) : Prop := ∃ v v', s.HasValue v ∧ s'.HasValue v' ∧ v.Same v'

lemma Elements.hasValues : ∀ {elements : Elements} {items : List Json},
    elements.values? = some items → List.Forall₂ Syntax.HasValue elements.toList items
  | .last _ v _, items, h => by
      rw [Elements.values?, Option.map_eq_some_iff] at h
      obtain ⟨j, hv, rfl⟩ := h
      exact .cons hv .nil
  | .more _ v _ rest, items, h => by
      simp only [Elements.values?, Option.bind_eq_some_iff, Option.map_eq_some_iff] at h
      obtain ⟨j, hv, items, hrest, rfl⟩ := h
      exact .cons hv (Elements.hasValues hrest)

lemma Members.hasValues : ∀ {members : Members} {values : List (Text × Json)},
    members.values? = some values →
    ∃ named, members.toList? = some named ∧ MembersRel Syntax.HasValue named values
  | .last _ name _ _ v _, values, h => by
      simp only [Members.values?, Option.bind_eq_some_iff, Option.map_eq_some_iff] at h
      obtain ⟨k, hname, j, hv, rfl⟩ := h
      exact ⟨[(k, v)], by rw [Members.toList?, hname, Option.map_some], .cons ⟨rfl, hv⟩ .nil⟩
  | .more _ name _ _ v _ rest, values, h => by
      simp only [Members.values?, Option.bind_eq_some_iff, Option.map_eq_some_iff] at h
      obtain ⟨k, hname, j, hv, values, hrest, rfl⟩ := h
      obtain ⟨named, hnamed, hrel⟩ := Members.hasValues hrest
      refine ⟨(k, v) :: named, ?_, .cons ⟨rfl, hv⟩ hrel⟩
      rw [Members.toList?, hname, hnamed, Option.bind_some, Option.map_some]

/-- The fields of a text have the values that are the fields of its value. -/
theorem Syntax.HasValue.fields {s : Syntax} {v : Json} (h : s.HasValue v) (names : List Text)
    (required : ℕ) :
    FieldsRel Syntax.HasValue (s.fields names required) (v.fields names required) := by
  cases s with
  | array elements =>
      obtain ⟨items, hitems, rfl⟩ := Option.map_eq_some_iff.mp h
      exact fieldsByPosition_rel (Elements.hasValues hitems) names required
  | emptyArray blank =>
      cases h
      exact fieldsByPosition_rel .nil names required
  | object members =>
      obtain ⟨values, hvalues, rfl⟩ := Option.map_eq_some_iff.mp h
      obtain ⟨named, hnamed, hrel⟩ := Members.hasValues hvalues
      rw [Syntax.fields, hnamed, Option.bind_some]
      exact hrel.fieldsByName names
  | emptyObject blank =>
      cases h
      exact MembersRel.fieldsByName .nil names
  | string spelling =>
      obtain ⟨s, -, rfl⟩ := Option.map_eq_some_iff.mp h
      exact .none
  | _ =>
      cases h
      exact .none

lemma sameValue_of_rel {s s' : Option Syntax} {v v' : Option Json}
    (h : Option.Rel Syntax.HasValue s v) (h' : Option.Rel Syntax.HasValue s' v')
    (hsame : Option.Rel Json.Same v v') : Option.Rel SameValue s s' := by
  cases hsame with
  | none =>
      cases h
      cases h'
      exact .none
  | some hsame =>
      cases h with
      | some h =>
          cases h' with
          | some h' => exact .some ⟨_, _, h, h', hsame⟩

lemma sameValues_of_rel {xs xs' : List (Option Syntax)} {fs fs' : List (Option Json)}
    (h : List.Forall₂ (Option.Rel Syntax.HasValue) xs fs)
    (h' : List.Forall₂ (Option.Rel Syntax.HasValue) xs' fs')
    (hsame : List.Forall₂ (Option.Rel Json.Same) fs fs') :
    List.Forall₂ (Option.Rel SameValue) xs xs' := by
  induction hsame generalizing xs xs' with
  | nil =>
      cases h
      cases h'
      exact .nil
  | cons hfirst _ ih =>
      cases h with
      | cons hx h =>
          cases h' with
          | cons hx' h' => exact .cons (sameValue_of_rel hx hx' hfirst) (ih h h')

/-- **A struct finds the same fields in texts of the same value.** -/
theorem SameValue.fields {s s' : Syntax} (h : SameValue s s') (names : List Text) (required : ℕ) :
    FieldsRel SameValue (s.fields names required) (s'.fields names required) := by
  obtain ⟨v, v', hv, hv', hsame⟩ := h
  have hfields := hv.fields names required
  have hfields' := hv'.fields names required
  have hvalues := hsame.fields names required
  generalize s.fields names required = xs at *
  generalize s'.fields names required = xs' at *
  generalize v.fields names required = fs at *
  generalize v'.fields names required = fs' at *
  cases hvalues with
  | none =>
      cases hfields
      cases hfields'
      exact .none
  | some hvalues =>
      cases hfields with
      | some hxs =>
          cases hfields' with
          | some hxs' => exact .some (sameValues_of_rel hxs hxs' hvalues)

end Connect
