import ClaudeCodeConnect.Json.Syntax

/-!
# Reading JSON texts

A recursive-descent parser from texts to the trees of `Json.Syntax`, which takes just the JSON
texts of RFC 8259.  The recursion is on fuel, of which a text never needs more than its length.

* `parseDoc?` -- a whole text; `parseJson?` is its value.
* `parseValue_text` -- the parser finds the tree a text was written from, whatever follows it that
  cannot continue a number; the induction is on the tree, with one statement for values, one for
  elements and one for members.
* `parseDoc?_text` -- so a text is that of one tree only.
-/

namespace Connect

/-! ## The parser

It finds a tree, not a value: whether a string literal has a value is left to the tree. -/

/-- The blanks at the start of a text. -/
def spanBlank (s : Text) : Blank × Text :=
  (⟨s.takeWhile isBlank, by simp⟩, s.dropWhile isBlank)

/-- The inside of a string literal, whose opening quote has been read. -/
def parseSpelling : Text → Option (Spelling × Text)
  | [] => none
  | '"' :: s => some ([], s)
  | '\\' :: 'u' :: a :: b :: c :: d :: s =>
      if h : [a, b, c, d].all isHex = true then
        (parseSpelling s).map fun q => (.unit a b c d h :: q.1, q.2)
      else none
  | '\\' :: c :: s =>
      if h : (shortEscape? c).isSome = true then
        (parseSpelling s).map fun q => (.short c h :: q.1, q.2)
      else none
  | c :: s =>
      if h : isUnescaped c = true then
        (parseSpelling s).map fun q => (.unescaped c h :: q.1, q.2)
      else none

/-- A number. -/
def parseNumber (s : Text) : Option (Syntax × Text) :=
  if h : isNumber (s.takeWhile isNumberChar) = true then
    some (.number (s.takeWhile isNumberChar) h, s.dropWhile isNumberChar)
  else none

/-- A value that is neither a string nor an array nor an object. -/
def parseAtom (s : Text) : Option (Syntax × Text) :=
  match Text.stripPrefix ['n', 'u', 'l', 'l'] s with
  | some rest => some (.null, rest)
  | none =>
      match Text.stripPrefix ['t', 'r', 'u', 'e'] s with
      | some rest => some (.bool true, rest)
      | none =>
          match Text.stripPrefix ['f', 'a', 'l', 's', 'e'] s with
          | some rest => some (.bool false, rest)
          | none => parseNumber s

/-- The name of a member, the blanks after it, and what follows the colon. -/
def parseName : Text → Option (Spelling × Blank × Text)
  | '"' :: s =>
      (parseSpelling s).bind fun name =>
        match (spanBlank name.2).2 with
        | ':' :: rest => some (name.1, (spanBlank name.2).1, rest)
        | _ => none
  | _ => none

mutual

/-- One value, without the blanks before and after it. -/
def parseValue : ℕ → Text → Option (Syntax × Text)
  | 0, _ => none
  | fuel + 1, s =>
      match s with
      | '"' :: s => (parseSpelling s).map fun q => (.string q.1, q.2)
      | '[' :: s =>
          match (spanBlank s).2 with
          | ']' :: rest => some (.emptyArray (spanBlank s).1, rest)
          | _ => (parseElements fuel s).map fun q => (.array q.1, q.2)
      | '\x7b' :: s =>
          match (spanBlank s).2 with
          | '\x7d' :: rest => some (.emptyObject (spanBlank s).1, rest)
          | _ => (parseMembers fuel s).map fun q => (.object q.1, q.2)
      | s => parseAtom s

/-- Elements up to the closing bracket. -/
def parseElements : ℕ → Text → Option (Elements × Text)
  | 0, _ => none
  | fuel + 1, s =>
      (parseValue fuel (spanBlank s).2).bind fun q =>
        match (spanBlank q.2).2 with
        | ',' :: rest =>
            (parseElements fuel rest).map fun r =>
              (.more (spanBlank s).1 q.1 (spanBlank q.2).1 r.1, r.2)
        | ']' :: rest => some (.last (spanBlank s).1 q.1 (spanBlank q.2).1, rest)
        | _ => none

/-- Members up to the closing brace. -/
def parseMembers : ℕ → Text → Option (Members × Text)
  | 0, _ => none
  | fuel + 1, s =>
      (parseName (spanBlank s).2).bind fun name =>
        (parseValue fuel (spanBlank name.2.2).2).bind fun q =>
          match (spanBlank q.2).2 with
          | ',' :: rest =>
              (parseMembers fuel rest).map fun r =>
                (.more (spanBlank s).1 name.1 name.2.1 (spanBlank name.2.2).1 q.1
                  (spanBlank q.2).1 r.1, r.2)
          | '\x7d' :: rest =>
              some (.last (spanBlank s).1 name.1 name.2.1 (spanBlank name.2.2).1 q.1
                (spanBlank q.2).1, rest)
          | _ => none

end

/-- A whole text. -/
def parseDoc? (s : Text) : Option Doc :=
  (parseValue (s.length + 1) (spanBlank s).2).bind fun q =>
    if (spanBlank q.2).2 = [] then some ⟨(spanBlank s).1, q.1, (spanBlank q.2).1⟩ else none

/-- The value of a text.  It stands in for `serde_json`, which goes its own way on some texts: of
two members of one name it keeps the later, it refuses a number that is out of range and a text
nested more than 128 deep, it rounds a number to 64 bits, and in a string that it only skips over it
lets a lone surrogate pass. -/
def parseJson? (s : Text) : Option Json := (parseDoc? s).bind fun d => d.value.value?

/-! ## Tokens read back

What the parser does with the text of a blank, a literal or a number, whatever comes after it. -/

/-- What follows cannot be blank. -/
def StartsVisible (s : Text) : Prop := ∀ c, s.head? = some c → isBlank c = false

/-- What follows cannot continue a number. -/
def EndsNumber (s : Text) : Prop := ∀ c, s.head? = some c → isNumberChar c = false

lemma spanBlank_append (b : Blank) {s : Text} (h : StartsVisible s) :
    spanBlank (b.text ++ s) = (b, s) := by
  have hall : ∀ c ∈ b.text, isBlank c = true := List.all_eq_true.mp b.blank
  have hs : s.takeWhile isBlank = [] ∧ s.dropWhile isBlank = s := by
    cases s with
    | nil => exact ⟨rfl, rfl⟩
    | cons c s => simp [h c rfl]
  have htake : (b.text ++ s).takeWhile isBlank = b.text := by
    rw [List.takeWhile_append_of_pos hall, hs.1, List.append_nil]
  have hdrop : (b.text ++ s).dropWhile isBlank = s := by
    rw [List.dropWhile_append_of_pos hall, hs.2]
  cases b with
  | mk text blank => simp only [spanBlank, htake, hdrop]

lemma parseSpelling_text (s : Spelling) (rest : Text) :
    parseSpelling (s.text ++ '"' :: rest) = some (s, rest) := by
  induction s with
  | nil => rfl
  | cons c s ih =>
      have hcons : ∀ t : Text, Spelling.text (c :: s) ++ t = c.text ++ (Spelling.text s ++ t) := by
        intro t
        simp [Spelling.text]
      rw [hcons]
      cases c with
      | unescaped c h =>
          have hquote : c ≠ '"' := by
            rintro rfl
            exact absurd h (by decide)
          have hbackslash : c ≠ '\\' := by
            rintro rfl
            exact absurd h (by decide)
          show parseSpelling (c :: (Spelling.text s ++ '"' :: rest)) = _
          rw [parseSpelling.eq_5 _ _ hquote
            (fun _ _ _ _ _ hc => absurd hc hbackslash) (fun _ _ hc => absurd hc hbackslash),
            dif_pos h, ih]
          rfl
      | short c h =>
          have hu : c ≠ 'u' := by
            rintro rfl
            exact absurd h (by decide)
          show parseSpelling ('\\' :: c :: (Spelling.text s ++ '"' :: rest)) = _
          rw [parseSpelling.eq_4 _ _ (fun _ _ _ _ _ hc => absurd hc hu), dif_pos h, ih]
          rfl
      | unit a b c d h =>
          show parseSpelling
            ('\\' :: 'u' :: a :: b :: c :: d :: (Spelling.text s ++ '"' :: rest)) = _
          rw [parseSpelling, dif_pos h, ih]
          rfl

lemma isNumber_all {literal : Text} (h : isNumber literal = true) :
    ∀ c ∈ literal, isNumberChar c = true := by
  simp only [isNumber, Bool.and_eq_true] at h
  exact List.all_eq_true.mp h.1.1.1.1.1.1

/-- A number starts with a minus sign or a digit. -/
lemma isNumber_head {literal : Text} (h : isNumber literal = true) :
    ∃ c s, literal = c :: s ∧ (c = '-' ∨ c.isDigit = true) := by
  have hint : (if literal.head? = some '-' then literal.tail else literal).takeWhile Char.isDigit
      ≠ [] := by
    simp only [isNumber, Bool.and_eq_true, decide_eq_true_eq] at h
    exact h.1.1.1.1.1.2
  cases literal with
  | nil => exact absurd rfl hint
  | cons c s =>
      refine ⟨c, s, rfl, ?_⟩
      by_cases hc : c = '-'
      · exact Or.inl hc
      · right
        rw [List.head?_cons, if_neg (by simpa using hc)] at hint
        by_contra hdigit
        exact hint (List.takeWhile_cons_of_neg hdigit)

lemma parseNumber_append {literal rest : Text} (h : isNumber literal = true)
    (hrest : EndsNumber rest) :
    parseNumber (literal ++ rest) = some (.number literal h, rest) := by
  have hall := isNumber_all h
  have hends : rest.takeWhile isNumberChar = [] ∧ rest.dropWhile isNumberChar = rest := by
    cases rest with
    | nil => exact ⟨rfl, rfl⟩
    | cons c s => simp [hrest c rfl]
  have htake : (literal ++ rest).takeWhile isNumberChar = literal := by
    rw [List.takeWhile_append_of_pos hall, hends.1, List.append_nil]
  have hdrop : (literal ++ rest).dropWhile isNumberChar = rest := by
    rw [List.dropWhile_append_of_pos hall, hends.2]
  simp only [parseNumber, htake, hdrop, h, dif_pos]

/-! ## Values read back

The induction is on the tree, with one statement for values, one for elements and one for members;
what follows must not continue a number. -/

/-- What a value can start with: nothing blank, and no closing bracket. -/
lemma Syntax.text_head (v : Syntax) :
    ∃ c s, v.text = c :: s ∧ isBlank c = false ∧ c ≠ ']' := by
  cases v with
  | null => exact ⟨_, _, rfl, rfl, by decide⟩
  | bool b => cases b <;> exact ⟨_, _, rfl, rfl, by decide⟩
  | number literal h =>
      obtain ⟨c, s, hs, hc⟩ := isNumber_head h
      refine ⟨c, s, hs, ?_, ?_⟩
      · rcases hc with rfl | hc
        · rfl
        · have hb := Text.not_isWhitespace_of_isDigit hc
          simp only [isBlank, Bool.or_eq_false_iff, beq_eq_false_iff_ne]
          refine ⟨⟨⟨?_, ?_⟩, ?_⟩, ?_⟩ <;> rintro rfl <;> exact absurd hc (by decide)
      · rintro rfl
        exact absurd hc (by decide)
  | string s => exact ⟨_, _, rfl, rfl, by decide⟩
  | emptyArray blank => exact ⟨_, _, rfl, rfl, by decide⟩
  | array elements => exact ⟨_, _, rfl, rfl, by decide⟩
  | emptyObject blank => exact ⟨_, _, rfl, rfl, by decide⟩
  | object members => exact ⟨_, _, rfl, rfl, by decide⟩

lemma startsVisible_cons {c : Char} (h : isBlank c = false) (s : Text) :
    StartsVisible (c :: s) := by
  rintro x hx
  rw [List.head?_cons, Option.some.injEq] at hx
  rw [← hx, h]

lemma Syntax.startsVisible (v : Syntax) (rest : Text) : StartsVisible (v.text ++ rest) := by
  obtain ⟨c, s, hs, hblank, -⟩ := v.text_head
  rw [hs]
  exact startsVisible_cons hblank (s ++ rest)

lemma endsNumber_cons {c : Char} (h : isNumberChar c = false) (s : Text) :
    EndsNumber (c :: s) := by
  rintro x hx
  rw [List.head?_cons, Option.some.injEq] at hx
  rw [← hx, h]

/-- Blanks, and then something that does not continue a number, do not continue one. -/
lemma Blank.endsNumber (b : Blank) {s : Text} (h : EndsNumber s) : EndsNumber (b.text ++ s) := by
  obtain ⟨text, hblank⟩ := b
  cases text with
  | nil => exact h
  | cons c text =>
      have hc : isBlank c = true := List.all_eq_true.mp hblank c List.mem_cons_self
      simp only [isBlank, Bool.or_eq_true, beq_iff_eq] at hc
      refine endsNumber_cons ?_ _
      rcases hc with ((rfl | rfl) | rfl) | rfl <;> decide

lemma parseAtom_number {literal rest : Text} (h : isNumber literal = true)
    (hrest : EndsNumber rest) :
    parseAtom (literal ++ rest) = some (.number literal h, rest) := by
  obtain ⟨c, s, hs, hc⟩ := isNumber_head h
  have hword : ∀ (x : Char) (word : Text), (x = '-' ∨ x.isDigit = true → False) →
      Text.stripPrefix (x :: word) (literal ++ rest) = none := by
    intro x word hx
    have hne : x ≠ c := by
      rintro rfl
      exact hx hc
    simp [Text.stripPrefix, hs, hne]
  rw [parseAtom, hword 'n' _ (by decide), hword 't' _ (by decide), hword 'f' _ (by decide)]
  exact parseNumber_append h hrest

/-- The first element of an array starts with no closing bracket. -/
lemma Elements.span (e : Elements) (rest : Text) :
    ∃ blank c s, spanBlank (e.text ++ rest) = (blank, c :: s) ∧ c ≠ ']' := by
  have hspan : ∀ (before : Blank) (v : Syntax) (t : Text),
      ∃ blank c s, spanBlank (before.text ++ (v.text ++ t)) = (blank, c :: s) ∧ c ≠ ']' := by
    intro before v t
    obtain ⟨c, s, hs, -, hc⟩ := v.text_head
    refine ⟨before, c, s ++ t, ?_, hc⟩
    rw [spanBlank_append before (v.startsVisible t), hs]
    rfl
  cases e with
  | last before v after => simpa [Elements.text] using hspan before v (after.text ++ rest)
  | more before v after more =>
      simpa [Elements.text] using hspan before v (after.text ++ ',' :: (more.text ++ rest))

/-- The first member of an object starts with a quote. -/
lemma Members.span (m : Members) (rest : Text) :
    ∃ blank c s, spanBlank (m.text ++ rest) = (blank, c :: s) ∧ c ≠ '\x7d' := by
  have hspan : ∀ (before : Blank) (name : Spelling) (t : Text),
      ∃ blank c s, spanBlank (before.text ++ (quoted name ++ t)) = (blank, c :: s) ∧
        c ≠ '\x7d' := fun before name t =>
    ⟨before, '"', name.text ++ ['"'] ++ t,
      spanBlank_append before (startsVisible_cons (by decide) _), by decide⟩
  cases m with
  | last before name colon colon' v after =>
      simpa [Members.text] using
        hspan before name (colon.text ++ ':' :: (colon'.text ++ (v.text ++ (after.text ++ rest))))
  | more before name colon colon' v after more =>
      simpa [Members.text] using hspan before name (colon.text ++ ':' ::
        (colon'.text ++ (v.text ++ (after.text ++ ',' :: (more.text ++ rest)))))

lemma parseName_text (name : Spelling) (colon : Blank) (rest : Text) :
    parseName ('"' :: (name.text ++ '"' :: (colon.text ++ ':' :: rest)))
      = some (name, colon, rest) := by
  have hcolon := spanBlank_append colon (startsVisible_cons (c := ':') (by decide) rest)
  rw [parseName, parseSpelling_text, Option.bind_some, hcolon]
  rfl

mutual

/-- **A value is read back**, whatever follows it that does not continue a number. -/
theorem parseValue_text (v : Syntax) (fuel : ℕ) (rest : Text) (hfuel : v.text.length < fuel)
    (hrest : EndsNumber rest) : parseValue fuel (v.text ++ rest) = some (v, rest) := by
  obtain ⟨n, rfl⟩ := Nat.exists_eq_succ_of_ne_zero (Nat.ne_of_gt (Nat.zero_lt_of_lt hfuel))
  cases v with
  | null => rfl
  | bool b => cases b <;> rfl
  | number literal h =>
      obtain ⟨c, s, hs, hc⟩ := isNumber_head h
      have hne : ∀ x : Char, (x = '-' ∨ x.isDigit = true → False) → c ≠ x := by
        rintro x hx rfl
        exact hx hc
      have hatom := parseAtom_number h hrest
      simp only [Syntax.text, hs, List.cons_append] at hatom ⊢
      rw [parseValue.eq_5 _ _ (fun _ hx => hne '"' (by decide) (List.cons.inj hx).1)
        (fun _ hx => hne '[' (by decide) (List.cons.inj hx).1)
        (fun _ hx => hne '\x7b' (by decide) (List.cons.inj hx).1)]
      exact hatom
  | string s =>
      have hread := parseSpelling_text s rest
      simp only [Syntax.text, quoted, List.cons_append, List.append_assoc, List.nil_append]
      rw [parseValue, hread]
      rfl
  | emptyArray blank =>
      have hspan := spanBlank_append blank (startsVisible_cons (c := ']') rfl rest)
      simp only [Syntax.text, List.cons_append, List.append_assoc, List.nil_append]
      rw [parseValue, hspan]
      rfl
  | array elements =>
      have hlen : elements.text.length + 1 < n := by
        simp only [Syntax.text, List.length_cons, List.length_append, List.length_nil] at hfuel
        omega
      have hread := parseElements_text elements n rest hlen
      obtain ⟨blank, c, s, hspan, hc⟩ := elements.span (']' :: rest)
      simp only [Syntax.text, List.cons_append, List.append_assoc, List.nil_append]
      rw [parseValue, hspan, hread]
      split
      · next heq => exact absurd (List.cons.inj heq).1 hc
      · rfl
  | emptyObject blank =>
      have hspan := spanBlank_append blank (startsVisible_cons (c := '\x7d') rfl rest)
      simp only [Syntax.text, List.cons_append, List.append_assoc, List.nil_append]
      rw [parseValue, hspan]
      rfl
  | object members =>
      have hlen : members.text.length + 1 < n := by
        simp only [Syntax.text, List.length_cons, List.length_append, List.length_nil] at hfuel
        omega
      have hread := parseMembers_text members n rest hlen
      obtain ⟨blank, c, s, hspan, hc⟩ := members.span ('\x7d' :: rest)
      simp only [Syntax.text, List.cons_append, List.append_assoc, List.nil_append]
      rw [parseValue, hspan, hread]
      split
      · next heq => exact absurd (List.cons.inj heq).1 hc
      · rfl

theorem parseElements_text (e : Elements) (fuel : ℕ) (rest : Text)
    (hfuel : e.text.length + 1 < fuel) :
    parseElements fuel (e.text ++ ']' :: rest) = some (e, rest) := by
  obtain ⟨n, rfl⟩ := Nat.exists_eq_succ_of_ne_zero (Nat.ne_of_gt (Nat.zero_lt_of_lt hfuel))
  cases e with
  | last before v after =>
      have hlen : v.text.length < n := by
        simp only [Elements.text, List.length_append] at hfuel
        omega
      have hends := endsNumber_cons (c := ']') (by decide) rest
      have hbefore := spanBlank_append before (v.startsVisible (after.text ++ ']' :: rest))
      have hread := parseValue_text v n _ hlen (after.endsNumber hends)
      have hafter := spanBlank_append after (startsVisible_cons (c := ']') (by decide) rest)
      simp only [Elements.text, List.append_assoc]
      rw [parseElements, hbefore, hread, Option.bind_some, hafter]
      rfl
  | more before v after more =>
      have hlen : v.text.length < n ∧ more.text.length + 1 < n := by
        simp only [Elements.text, List.length_append, List.length_cons] at hfuel
        omega
      have hends := endsNumber_cons (c := ',') (by decide) (more.text ++ ']' :: rest)
      have hbefore := spanBlank_append before
        (v.startsVisible (after.text ++ ',' :: (more.text ++ ']' :: rest)))
      have hread := parseValue_text v n _ hlen.1 (after.endsNumber hends)
      have hafter := spanBlank_append after
        (startsVisible_cons (c := ',') (by decide) (more.text ++ ']' :: rest))
      have hmore := parseElements_text more n rest hlen.2
      simp only [Elements.text, List.append_assoc, List.cons_append]
      rw [parseElements, hbefore, hread, Option.bind_some, hafter]
      simp only [hmore, Option.map_some]

theorem parseMembers_text (m : Members) (fuel : ℕ) (rest : Text)
    (hfuel : m.text.length + 1 < fuel) :
    parseMembers fuel (m.text ++ '\x7d' :: rest) = some (m, rest) := by
  obtain ⟨n, rfl⟩ := Nat.exists_eq_succ_of_ne_zero (Nat.ne_of_gt (Nat.zero_lt_of_lt hfuel))
  cases m with
  | last before name colon colon' v after =>
      have hlen : v.text.length < n := by
        simp only [Members.text, List.length_append, List.length_cons] at hfuel
        omega
      have hends := endsNumber_cons (c := '\x7d') (by decide) rest
      have hbefore := spanBlank_append before (startsVisible_cons (c := '"') (by decide)
        (name.text ++ '"' :: (colon.text ++ ':' :: (colon'.text ++ (v.text ++
          (after.text ++ '\x7d' :: rest))))))
      have hname := parseName_text name colon (colon'.text ++ (v.text ++
        (after.text ++ '\x7d' :: rest)))
      have hcolon := spanBlank_append colon' (v.startsVisible (after.text ++ '\x7d' :: rest))
      have hread := parseValue_text v n _ hlen (after.endsNumber hends)
      have hafter := spanBlank_append after (startsVisible_cons (c := '\x7d') (by decide) rest)
      simp only [Members.text, quoted, List.append_assoc, List.cons_append, List.nil_append]
      rw [parseMembers, hbefore, hname, Option.bind_some, hcolon, hread, Option.bind_some, hafter]
      rfl
  | more before name colon colon' v after more =>
      have hlen : v.text.length < n ∧ more.text.length + 1 < n := by
        simp only [Members.text, List.length_append, List.length_cons] at hfuel
        omega
      have hends := endsNumber_cons (c := ',') (by decide) (more.text ++ '\x7d' :: rest)
      have hbefore := spanBlank_append before (startsVisible_cons (c := '"') (by decide)
        (name.text ++ '"' :: (colon.text ++ ':' :: (colon'.text ++ (v.text ++
          (after.text ++ ',' :: (more.text ++ '\x7d' :: rest)))))))
      have hname := parseName_text name colon (colon'.text ++ (v.text ++
        (after.text ++ ',' :: (more.text ++ '\x7d' :: rest))))
      have hcolon := spanBlank_append colon'
        (v.startsVisible (after.text ++ ',' :: (more.text ++ '\x7d' :: rest)))
      have hread := parseValue_text v n _ hlen.1 (after.endsNumber hends)
      have hafter := spanBlank_append after
        (startsVisible_cons (c := ',') (by decide) (more.text ++ '\x7d' :: rest))
      have hmore := parseMembers_text more n rest hlen.2
      simp only [Members.text, quoted, List.append_assoc, List.cons_append, List.nil_append]
      rw [parseMembers, hbefore, hname, Option.bind_some, hcolon, hread, Option.bind_some, hafter]
      simp only [hmore, Option.map_some]

end

/-- **A text is read as the tree it was written from.** -/
theorem parseDoc?_text (d : Doc) : parseDoc? d.text = some d := by
  obtain ⟨before, v, after⟩ := d
  have hbefore := spanBlank_append before (v.startsVisible after.text)
  have hnil : StartsVisible [] := fun c hc => absurd hc (by simp)
  have hends : EndsNumber [] := fun c hc => absurd hc (by simp)
  have hafter := spanBlank_append after hnil
  have hend := after.endsNumber hends
  rw [List.append_nil] at hafter hend
  have hread := parseValue_text v ((before.text ++ (v.text ++ after.text)).length + 1) after.text
    (by simp only [List.length_append]; omega) hend
  rw [parseDoc?, Doc.text, List.append_assoc, hbefore, hread, Option.bind_some, hafter, if_pos rfl]

lemma parseJson?_text (d : Doc) : parseJson? d.text = d.value.value? := by
  rw [parseJson?, parseDoc?_text, Option.bind_some]

/-- A text without blanks around it. -/
lemma parseDoc?_tree (s : Syntax) : parseDoc? s.text = some ⟨.none, s, .none⟩ := by
  rw [← parseDoc?_text, Doc.text, Blank.none, List.append_nil, List.nil_append]

/-- A text is of one tree. -/
lemma Syntax.text_injective {s s' : Syntax} (h : s.text = s'.text) : s = s' := by
  have hparse := parseDoc?_tree s'
  rw [← h, parseDoc?_tree s] at hparse
  cases hparse
  rfl

end Connect
