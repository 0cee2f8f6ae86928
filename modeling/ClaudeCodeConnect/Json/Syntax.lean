import ClaudeCodeConnect.Json.Value

/-!
# JSON texts

The texts RFC 8259 derives, as trees that keep every choice of the writer: blanks, the spelling of
each character of a string, the order of members.

* `Syntax`, `Syntax.text` -- a tree and its text; `Doc` -- a whole text, with blanks around its
  value.
* `Spelling` -- the inside of a string literal, character by character; `Spelling.value?` reads it,
  and fails on a surrogate that is not part of a pair.
* `Syntax.value?` -- the value a text has.
* `escape` -- the spelling a writer gives a string; `escape_value?` says that it reads back.
-/

namespace Connect

/-! ## Tokens

The pieces of a JSON text, each with a proof that it is well formed. -/

/-- RFC 8259 `ws`. -/
def isBlank (c : Char) : Bool := c == ' ' || c == '\t' || c == '\n' || c == '\r'

/-- Blanks between two tokens. -/
structure Blank where
  text : Text
  blank : text.all isBlank = true
  deriving DecidableEq, Repr

/-- No blanks. -/
def Blank.none : Blank := ⟨[], rfl⟩

/-- A character that stands for itself in a string. -/
def isUnescaped (c : Char) : Bool := c != '"' && c != '\\' && 0x20 ≤ c.toNat

/-- What follows a backslash, other than a code unit. -/
def shortEscape? : Char → Option Char
  | '"' => some '"'
  | '\\' => some '\\'
  | '/' => some '/'
  | 'b' => some (Char.ofNat 8)
  | 'f' => some (Char.ofNat 12)
  | 'n' => some '\n'
  | 'r' => some '\r'
  | 't' => some '\t'
  | _ => none

/-- The value of a hexadecimal digit. -/
def hexValue? (c : Char) : Option ℕ :=
  if c.isDigit then some (c.toNat - '0'.toNat)
  else if 'a' ≤ c ∧ c ≤ 'f' then some (c.toNat - 'a'.toNat + 10)
  else if 'A' ≤ c ∧ c ≤ 'F' then some (c.toNat - 'A'.toNat + 10)
  else none

/-- A hexadecimal digit, in either case. -/
def isHex (c : Char) : Bool := (hexValue? c).isSome

/-- One item of a string literal: a character as it is, a short escape, or a UTF-16 code unit. -/
inductive SpelledChar where
  | unescaped (c : Char) (h : isUnescaped c = true)
  | short (c : Char) (h : (shortEscape? c).isSome = true)
  | unit (a b c d : Char) (h : [a, b, c, d].all isHex = true)
  deriving DecidableEq, Repr

/-- The inside of a string literal. -/
abbrev Spelling := List SpelledChar

/-- An item as it stands in the literal. -/
def SpelledChar.text : SpelledChar → Text
  | unescaped c _ => [c]
  | short c _ => ['\\', c]
  | unit a b c d _ => ['\\', 'u', a, b, c, d]

/-- Whether it starts with a backslash. -/
def SpelledChar.isEscape : SpelledChar → Bool
  | unescaped _ _ => false
  | _ => true

/-- The code unit of four hexadecimal digits. -/
def codeUnit (a b c d : Char) : ℕ :=
  (((hexValue? a).getD 0 * 16 + (hexValue? b).getD 0) * 16 + (hexValue? c).getD 0) * 16 +
    (hexValue? d).getD 0

/-- A character of numbers. -/
def isNumberChar (c : Char) : Bool :=
  c.isDigit || c == '-' || c == '+' || c == '.' || c == 'e' || c == 'E'

/-- A number literal: `[ "-" ] int [ frac ] [ exp ]`. -/
def isNumber (literal : Text) : Bool :=
  let s := if literal.head? = some '-' then literal.tail else literal
  let int := s.takeWhile Char.isDigit
  let s := s.dropWhile Char.isDigit
  let frac := if s.head? = some '.' then s.tail.takeWhile Char.isDigit else ['0']
  let s := if s.head? = some '.' then s.tail.dropWhile Char.isDigit else s
  let exp :=
    if s.head? = some 'e' ∨ s.head? = some 'E' then
      if s.tail.head? = some '+' ∨ s.tail.head? = some '-' then s.tail.tail else s.tail
    else ['0']
  let rest := if s.head? = some 'e' ∨ s.head? = some 'E' then [] else s
  literal.all isNumberChar && int ≠ [] && (int.length = 1 || int.head? ≠ some '0') &&
    frac ≠ [] && exp ≠ [] && exp.all Char.isDigit && rest = []

lemma isNumber_one : isNumber ['1'] = true := by decide

/-- What is written of a natural number is a number literal. -/
lemma isNumber_toDigits (n : ℕ) : isNumber (Text.toDigits n) = true := by
  obtain ⟨c, s, hs⟩ := List.exists_cons_of_ne_nil (Text.toDigits_ne_nil n)
  have hdigits : ∀ d ∈ c :: s, d.isDigit = true := fun d hd =>
    Text.isDigit_of_mem_toDigits (n := n) (hs ▸ hd)
  have hminus : ¬(c :: s).head? = some '-' := by
    rw [List.head?_cons, Option.some.injEq]
    rintro rfl
    exact absurd (hdigits '-' List.mem_cons_self) (by decide)
  have hnil : (c :: s).dropWhile Char.isDigit = [] := List.dropWhile_eq_nil_iff.mpr hdigits
  have hall : (c :: s).takeWhile Char.isDigit = c :: s := List.takeWhile_eq_self_iff.mpr hdigits
  have hchars : (c :: s).all isNumberChar = true := List.all_eq_true.mpr fun d hd => by
    simp [isNumberChar, hdigits d hd]
  have hhead : (c :: s).length = 1 ∨ (c :: s).head? ≠ some '0' := by
    rcases Nat.eq_zero_or_pos n with rfl | hn
    · rw [← hs]
      exact .inl rfl
    · rw [← hs]
      exact .inr (Text.head?_toDigits_ne_zero hn)
  rw [hs]
  simp only [isNumber, if_neg hminus, hnil, hall, hchars]
  simpa using hhead

/-! ## Spellings

A string literal can spell one string in many ways; a lone surrogate spells none. -/

namespace Spelling

/-- The text between the quotes. -/
def text (s : Spelling) : Text := s.flatMap SpelledChar.text

/-- Whether anything in it is escaped. -/
def isEscaped (s : Spelling) : Bool := s.any SpelledChar.isEscape

/-- Read with the high surrogate that is waiting for its other half, if there is one. -/
def readFrom : Option ℕ → Spelling → Option Text
  | none, [] => some []
  | some _, [] => none
  | none, .unescaped c _ :: s => (readFrom none s).map (c :: ·)
  | none, .short c _ :: s => (shortEscape? c).bind fun x => (readFrom none s).map (x :: ·)
  | none, .unit a b c d _ :: s =>
      let n := codeUnit a b c d
      if 0xD800 ≤ n ∧ n < 0xDC00 then readFrom (some n) s
      else if 0xDC00 ≤ n ∧ n < 0xE000 then none
      else (readFrom none s).map (Char.ofNat n :: ·)
  | some high, .unit a b c d _ :: s =>
      let n := codeUnit a b c d
      if 0xDC00 ≤ n ∧ n < 0xE000 then
        (readFrom none s).map (Char.ofNat ((high - 0xD800) * 0x400 + (n - 0xDC00) + 0x10000) :: ·)
      else none
  | some _, _ :: _ => none

/-- The string a spelling is of. -/
def value? (s : Spelling) : Option Text := readFrom none s

end Spelling

/-! ## Trees

A tree is a JSON text and nothing else: it keeps every blank and every escape, so its text is the
text it was read from. -/

mutual

/-- A JSON text without blanks around it. -/
inductive Syntax where
  | null
  | bool (b : Bool)
  | number (literal : Text) (h : isNumber literal = true)
  | string (s : Spelling)
  | emptyArray (blank : Blank)
  | array (elements : Elements)
  | emptyObject (blank : Blank)
  | object (members : Members)

/-- The elements of an array, each with the blanks before and after it. -/
inductive Elements where
  | last (before : Blank) (v : Syntax) (after : Blank)
  | more (before : Blank) (v : Syntax) (after : Blank) (rest : Elements)

/-- The members of an object: blanks, name, blanks, a colon, blanks, value, blanks. -/
inductive Members where
  | last (before : Blank) (name : Spelling) (colon colon' : Blank) (v : Syntax) (after : Blank)
  | more (before : Blank) (name : Spelling) (colon colon' : Blank) (v : Syntax) (after : Blank)
      (rest : Members)

end

/-- A string literal. -/
def quoted (s : Spelling) : Text := '"' :: s.text ++ ['"']

mutual

/-- The text of a tree; every blank is where the tree has it. -/
def Syntax.text : Syntax → Text
  | .null => ['n', 'u', 'l', 'l']
  | .bool true => ['t', 'r', 'u', 'e']
  | .bool false => ['f', 'a', 'l', 's', 'e']
  | .number literal _ => literal
  | .string s => quoted s
  | .emptyArray blank => '[' :: blank.text ++ [']']
  | .array elements => '[' :: elements.text ++ [']']
  | .emptyObject blank => '\x7b' :: blank.text ++ ['\x7d']
  | .object members => '\x7b' :: members.text ++ ['\x7d']

/-- The same between the brackets of an array. -/
def Elements.text : Elements → Text
  | .last before v after => before.text ++ v.text ++ after.text
  | .more before v after rest => before.text ++ v.text ++ after.text ++ ',' :: rest.text

/-- The same between the braces of an object. -/
def Members.text : Members → Text
  | .last before name colon colon' v after =>
      before.text ++ quoted name ++ colon.text ++ ':' :: colon'.text ++ v.text ++ after.text
  | .more before name colon colon' v after rest =>
      before.text ++ quoted name ++ colon.text ++ ':' :: colon'.text ++ v.text ++ after.text ++
        ',' :: rest.text

end

/-- A whole JSON text. -/
structure Doc where
  before : Blank
  value : Syntax
  after : Blank

/-- The text, with the blanks around it. -/
def Doc.text (d : Doc) : Text := d.before.text ++ d.value.text ++ d.after.text

/-! ## Values

The value forgets the spelling.  Only a string can be without one. -/

mutual

/-- The value of a text, if all its strings have one. -/
def Syntax.value? : Syntax → Option Json
  | .null => some .null
  | .bool b => some (.bool b)
  | .number literal _ => some (.number literal)
  | .string s => s.value?.map .string
  | .emptyArray _ => some (.array [])
  | .array elements => elements.values?.map .array
  | .emptyObject _ => some (.object [])
  | .object members => members.values?.map .object

/-- The values of the elements, in order. -/
def Elements.values? : Elements → Option (List Json)
  | .last _ v _ => v.value?.map fun j => [j]
  | .more _ v _ rest => v.value?.bind fun j => rest.values?.map (j :: ·)

/-- The members by name, in order; a name may come twice. -/
def Members.values? : Members → Option (List (Text × Json))
  | .last _ name _ _ v _ => name.value?.bind fun k => v.value?.map fun j => [(k, j)]
  | .more _ name _ _ v _ rest =>
      name.value?.bind fun k => v.value?.bind fun j => rest.values?.map ((k, j) :: ·)

end

/-- The elements of an array, without the blanks. -/
def Elements.toList : Elements → List Syntax
  | .last _ v _ => [v]
  | .more _ v _ rest => v :: rest.toList

/-- The members of an object, if every name has a value. -/
def Members.toList? : Members → Option (List (Text × Syntax))
  | .last _ name _ _ v _ => name.value?.map fun k => [(k, v)]
  | .more _ name _ _ v _ rest => name.value?.bind fun k => rest.toList?.map ((k, v) :: ·)

/-! ## Writing

The one spelling that `serde_json` writes: short escapes where there are some, `\u00XX` for the
other control characters, and everything else as it is. -/

/-- One of the sixteen lower-case digits. -/
def hexDigit (n : ℕ) : Char :=
  if n < 10 then Char.ofNat ('0'.toNat + n) else Char.ofNat ('a'.toNat + (n - 10))

lemma isHex_hexDigit {n : ℕ} (h : n < 16) : isHex (hexDigit n) = true := by
  have hall : ∀ n < 16, isHex (hexDigit n) = true := by decide
  exact hall n h

/-- How `serde_json` writes a character of a string. -/
def escapeChar (c : Char) : SpelledChar :=
  if h : isUnescaped c = true then .unescaped c h
  else if c = '"' then .short '"' rfl
  else if c = '\\' then .short '\\' rfl
  else if c.toNat = 8 then .short 'b' rfl
  else if c.toNat = 9 then .short 't' rfl
  else if c.toNat = 10 then .short 'n' rfl
  else if c.toNat = 12 then .short 'f' rfl
  else if c.toNat = 13 then .short 'r' rfl
  else .unit '0' '0' (hexDigit (c.toNat / 16 % 16)) (hexDigit (c.toNat % 16)) (by
    simp only [List.all_cons, List.all_nil, isHex_hexDigit (Nat.mod_lt _ (by decide : 0 < 16))]
    rfl)

/-- How it writes a string. -/
def escape (s : Text) : Spelling := s.map escapeChar

lemma hexValue?_hexDigit {n : ℕ} (h : n < 16) : hexValue? (hexDigit n) = some n := by
  have hall : ∀ n < 16, hexValue? (hexDigit n) = some n := by decide
  exact hall n h

/-- A character that is no control character and neither quote nor backslash is written as it is. -/
lemma toNat_lt_of_escaped {c : Char} (h : isUnescaped c = false) (hquote : c ≠ '"')
    (hbackslash : c ≠ '\\') : c.toNat < 0x20 := by
  simpa [isUnescaped, hquote, hbackslash] using h

lemma readFrom_escapeChar (c : Char) (s : Spelling) :
    Spelling.readFrom none (escapeChar c :: s) = (Spelling.readFrom none s).map (c :: ·) := by
  have hnat : ∀ n, c.toNat = n → c = Char.ofNat n := by
    rintro n rfl
    exact (Char.ofNat_toNat c).symm
  rw [escapeChar]
  split_ifs with hraw hquote hbackslash h8 h9 h10 h12 h13
  · rfl
  · rw [hquote]
    rfl
  · rw [hbackslash]
    rfl
  · rw [hnat 8 h8]
    rfl
  · rw [hnat 9 h9]
    rfl
  · rw [hnat 10 h10]
    rfl
  · rw [hnat 12 h12]
    rfl
  · rw [hnat 13 h13]
    rfl
  · have hlt := toNat_lt_of_escaped (Bool.not_eq_true _ ▸ hraw) hquote hbackslash
    have hunit : codeUnit '0' '0' (hexDigit (c.toNat / 16 % 16)) (hexDigit (c.toNat % 16))
        = c.toNat := by
      rw [codeUnit, hexValue?_hexDigit (Nat.mod_lt _ (by decide)),
        hexValue?_hexDigit (Nat.mod_lt _ (by decide))]
      show ((0 * 16 + 0) * 16 + c.toNat / 16 % 16) * 16 + c.toNat % 16 = c.toNat
      omega
    simp only [Spelling.readFrom, hunit]
    rw [if_neg (by omega), if_neg (by omega), Char.ofNat_toNat]

/-- **What is written reads back.** -/
theorem escape_value? (s : Text) : (escape s).value? = some s := by
  induction s with
  | nil => rfl
  | cons c s ih =>
      show Spelling.readFrom none (escapeChar c :: escape s) = _
      rw [readFrom_escapeChar]
      show (Spelling.value? (escape s)).map _ = _
      rw [ih]
      rfl

lemma string_escape_value? (s : Text) : (Syntax.string (escape s)).value? = some (.string s) := by
  rw [Syntax.value?, escape_value?, Option.map_some]

/-- Elements one after the other, without blanks. -/
def Elements.compact (v : Syntax) : List Syntax → Elements
  | [] => .last .none v .none
  | v' :: rest => .more .none v .none (Elements.compact v' rest)

/-- An array, without blanks. -/
def Syntax.compactArray : List Syntax → Syntax
  | [] => .emptyArray .none
  | v :: rest => .array (Elements.compact v rest)

lemma Elements.compact_values? {v : Syntax} {rest : List Syntax} {j : Json} {values : List Json}
    (hv : v.value? = some j) (hrest : List.Forall₂ (fun v j => v.value? = some j) rest values) :
    (Elements.compact v rest).values? = some (j :: values) := by
  induction rest generalizing v j values with
  | nil =>
      cases hrest
      rw [Elements.compact, Elements.values?, hv]
      rfl
  | cons v' rest ih =>
      cases hrest with
      | cons hv' hrest =>
          rw [Elements.compact, Elements.values?, hv, ih hv' hrest]
          rfl

/-- **The value of a compact array.** -/
theorem Syntax.compactArray_value? {elements : List Syntax} {values : List Json}
    (h : List.Forall₂ (fun v j => v.value? = some j) elements values) :
    (Syntax.compactArray elements).value? = some (.array values) := by
  cases h with
  | nil => rfl
  | cons hv hrest =>
      rw [Syntax.compactArray, Syntax.value?, Elements.compact_values? hv hrest]
      rfl

/-- Members one after the other, without blanks. -/
def Members.compact (name : Text) (v : Syntax) : List (Text × Syntax) → Members
  | [] => .last .none (escape name) .none .none v .none
  | (name', v') :: rest =>
      .more .none (escape name) .none .none v .none (Members.compact name' v' rest)

/-- An object, without blanks. -/
def Syntax.compact : List (Text × Syntax) → Syntax
  | [] => .emptyObject .none
  | (name, v) :: rest => .object (Members.compact name v rest)

/-- Named trees, and the members they are of. -/
abbrev HaveValues (members : List (Text × Syntax)) (values : List (Text × Json)) : Prop :=
  List.Forall₂ (fun m j => m.1 = j.1 ∧ m.2.value? = some j.2) members values

lemma haveValues_cons {name : Text} {v : Syntax} {j : Json} {members : List (Text × Syntax)}
    {values : List (Text × Json)} (hv : v.value? = some j) (h : HaveValues members values) :
    HaveValues ((name, v) :: members) ((name, j) :: values) :=
  .cons ⟨rfl, hv⟩ h

lemma Members.compact_values? {name : Text} {v : Syntax} {rest : List (Text × Syntax)} {j : Json}
    {values : List (Text × Json)} (hv : v.value? = some j) (hrest : HaveValues rest values) :
    (Members.compact name v rest).values? = some ((name, j) :: values) := by
  induction rest generalizing name v j values with
  | nil =>
      cases hrest
      rw [Members.compact, Members.values?, escape_value?, hv]
      rfl
  | cons m rest ih =>
      obtain ⟨name', v'⟩ := m
      cases hrest with
      | cons hm hrest =>
          obtain ⟨rfl, hv'⟩ := hm
          rw [Members.compact, Members.values?, escape_value?, hv, ih hv' hrest]
          rfl

/-- **The value of a compact object.** -/
theorem Syntax.compact_value? {members : List (Text × Syntax)} {values : List (Text × Json)}
    (h : HaveValues members values) : (Syntax.compact members).value? = some (.object values) := by
  cases h with
  | nil => rfl
  | cons hm hrest =>
      rename_i m j members values
      obtain ⟨name, v⟩ := m
      obtain ⟨rfl, hv⟩ := hm
      rw [Syntax.compact, Syntax.value?, Members.compact_values? hv hrest]
      rfl

lemma Members.text_infix_compact {name name' : Text} {v v' : Syntax} {rest : List (Text × Syntax)}
    (h : (name', v') ∈ (name, v) :: rest) : v'.text <:+: (Members.compact name v rest).text := by
  induction rest generalizing name v with
  | nil =>
      obtain ⟨-, rfl⟩ := Prod.ext_iff.mp (List.mem_singleton.mp h)
      rw [Members.compact, Members.text]
      exact List.infix_append _ _ _
  | cons m rest ih =>
      obtain ⟨name'', v''⟩ := m
      rw [Members.compact, Members.text]
      rcases List.mem_cons.mp h with heq | hmem
      · obtain ⟨-, rfl⟩ := Prod.ext_iff.mp heq
        rw [List.append_assoc]
        exact List.infix_append _ _ _
      · refine (ih hmem).trans ?_
        exact ((List.suffix_cons _ _).trans (List.suffix_append _ _)).isInfix

/-- The text of a compact object has the text of each of its values in it. -/
theorem Syntax.text_infix_compact {name : Text} {v : Syntax} {members : List (Text × Syntax)}
    (h : (name, v) ∈ members) : v.text <:+: (Syntax.compact members).text := by
  cases members with
  | nil => simp at h
  | cons m rest =>
      rw [Syntax.compact, Syntax.text]
      exact (Members.text_infix_compact h).trans (List.infix_append ['\x7b'] _ ['\x7d'])

end Connect
