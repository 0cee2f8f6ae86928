import ClaudeCodeConnect.Core.Text
import Mathlib.Data.List.DropRight

/-!
# The string functions the source uses

`str` methods of Rust's standard library, on `Text`.

* `trim`, `trimEnd` -- Unicode white space, as `char::is_whitespace` has it.
* `splitOnce`, `stripPrefix`, `eqIgnoreAsciiCase`.
* `parseUnsigned` -- `str::parse` at an unsigned type, by the number of its values; `toDigits` is
  what formatting with `{}` writes, and `parseUnsigned_toDigits` that the one reads the other.
-/

namespace Connect

namespace Text

/-- `char::is_whitespace`: the Unicode property `White_Space`. -/
def isWhitespace (c : Char) : Bool :=
  let n := c.toNat
  (0x9 ≤ n && n ≤ 0xD) || n == 0x20 || n == 0x85 || n == 0xA0 || n == 0x1680 ||
    (0x2000 ≤ n && n ≤ 0x200A) || n == 0x2028 || n == 0x2029 || n == 0x202F || n == 0x205F ||
    n == 0x3000

/-- `str::trim_end`. -/
def trimEnd (s : Text) : Text := s.rdropWhile isWhitespace

/-- `str::trim`. -/
def trim (s : Text) : Text := trimEnd (s.dropWhile isWhitespace)

/-- `str::split_once`, at a character. -/
def splitOnce (d : Char) : Text → Option (Text × Text)
  | [] => none
  | c :: s => if c = d then some ([], s) else (splitOnce d s).map fun q => (c :: q.1, q.2)

/-- `str::strip_prefix`. -/
def stripPrefix (p s : Text) : Option Text :=
  if p.isPrefixOf s then some (s.drop p.length) else none

/-- `char::to_ascii_lowercase`. -/
def toAsciiLowercase (c : Char) : Char :=
  if 'A' ≤ c ∧ c ≤ 'Z' then Char.ofNat (c.toNat + 32) else c

/-- `str::eq_ignore_ascii_case`. -/
def eqIgnoreAsciiCase (s t : Text) : Bool := s.map toAsciiLowercase == t.map toAsciiLowercase

/-- `str::parse` at the unsigned type with `bound` values: an optional `+`, then digits, at least
    one. -/
def parseUnsigned (bound : ℕ) (s : Text) : Option ℕ :=
  let digits := if s.head? = some '+' then s.tail else s
  if digits ≠ [] ∧ digits.all Char.isDigit ∧ Nat.ofDigitChars 10 digits 0 < bound then
    some (Nat.ofDigitChars 10 digits 0)
  else none

/-- What `{}` writes of a number. -/
def toDigits (n : ℕ) : Text := Nat.toDigits 10 n

/-! ## Numbers

`u16::from_str` and its siblings undo `to_string`, and take nothing with a sign but a plus. -/

lemma isDigit_of_mem_toDigits {n : ℕ} {c : Char} (h : c ∈ toDigits n) : c.isDigit = true :=
  Nat.isDigit_of_mem_toDigits (by decide) (by decide) h

lemma toDigits_ne_nil (n : ℕ) : toDigits n ≠ [] := Nat.toDigits_ne_nil

theorem parseUnsigned_toDigits {bound n : ℕ} (h : n < bound) :
    parseUnsigned bound (toDigits n) = some n := by
  obtain ⟨c, s, hs⟩ := List.exists_cons_of_ne_nil (toDigits_ne_nil n)
  have hall : (toDigits n).all Char.isDigit = true :=
    List.all_eq_true.mpr fun c hc => isDigit_of_mem_toDigits hc
  have hvalue : Nat.ofDigitChars 10 (toDigits n) 0 = n := Nat.ofDigitChars_ten_toDigits
  have hc : c.isDigit = true := isDigit_of_mem_toDigits (by rw [hs]; exact List.mem_cons_self)
  have hplus : ¬(toDigits n).head? = some '+' := by
    rw [hs, List.head?_cons, Option.some.injEq]
    rintro rfl
    exact absurd hc (by decide)
  simp only [parseUnsigned, if_neg hplus, hvalue]
  exact if_pos ⟨toDigits_ne_nil n, hall, h⟩

/-- No leading zero, but for zero itself. -/
lemma head?_toDigits_ne_zero {n : ℕ} (h : 0 < n) : (toDigits n).head? ≠ some '0' := by
  induction n using Nat.strong_induction_on with
  | _ n ih =>
      rw [toDigits]
      by_cases hn : n < 10
      · rw [Nat.toDigits_of_lt_base hn, List.head?_cons, ne_eq, Option.some.injEq,
          Nat.digitChar_eq_zero]
        omega
      · have hdiv : 0 < n / 10 := by omega
        have ih := ih (n / 10) (by omega) hdiv
        rw [Nat.toDigits_of_base_le (by decide) (not_lt.mp hn), List.head?_append]
        obtain ⟨c, rest, hc⟩ := List.exists_cons_of_ne_nil (toDigits_ne_nil (n / 10))
        rw [hc] at ih
        rw [toDigits] at hc
        simpa [hc] using ih

lemma lt_of_parseUnsigned {bound n : ℕ} {s : Text} (h : parseUnsigned bound s = some n) :
    n < bound := by
  simp only [parseUnsigned] at h
  generalize (if s.head? = some '+' then s.tail else s) = digits at h
  split_ifs at h with hdigits
  cases h
  exact hdigits.2.2

lemma toDigits_injective {m n : ℕ} (h : toDigits m = toDigits n) : m = n := by
  have hm : Nat.ofDigitChars 10 (toDigits m) 0 = m := Nat.ofDigitChars_ten_toDigits
  rw [← hm, h]
  exact Nat.ofDigitChars_ten_toDigits

/-! ## Splitting

`split_once` and `strip_prefix`, by what they cut the text into. -/

lemma splitOnce_append {d : Char} {a : Text} (ha : d ∉ a) (b : Text) :
    splitOnce d (a ++ d :: b) = some (a, b) := by
  induction a with
  | nil => simp [splitOnce]
  | cons c a ih =>
      have hc : c ≠ d := fun h => ha (h ▸ List.mem_cons_self)
      have ih := ih fun h => ha (List.mem_cons_of_mem c h)
      simp [splitOnce, hc, ih]

lemma splitOnce_eq_some {d : Char} {s a b : Text} (h : splitOnce d s = some (a, b)) :
    s = a ++ d :: b ∧ d ∉ a := by
  induction s generalizing a with
  | nil => cases h
  | cons c s ih =>
      rw [splitOnce] at h
      split_ifs at h with hc
      · cases h
        exact ⟨by rw [hc]; rfl, List.not_mem_nil⟩
      · rw [Option.map_eq_some_iff] at h
        obtain ⟨⟨a', b'⟩, h, heq⟩ := h
        cases heq
        obtain ⟨rfl, hd⟩ := ih h
        refine ⟨rfl, fun hmem => ?_⟩
        rcases List.mem_cons.mp hmem with heq | hmem
        · exact hc heq.symm
        · exact hd hmem

lemma stripPrefix_append (p s : Text) : stripPrefix p (p ++ s) = some s := by
  simp [stripPrefix]

lemma stripPrefix_eq_some_iff {p s t : Text} : stripPrefix p s = some t ↔ s = p ++ t := by
  constructor
  · intro h
    rw [stripPrefix] at h
    split_ifs at h with hp
    cases h
    obtain ⟨t, rfl⟩ := List.isPrefixOf_iff_prefix.mp hp
    rw [List.drop_left]
  · rintro rfl
    exact stripPrefix_append p t

/-! ## Trimming

`trim` and its halves, as far as headers need them: digits stay, and the carriage return goes. -/

lemma trimEnd_append_singleton_of_isWhitespace {s : Text} {c : Char} (h : isWhitespace c = true) :
    trimEnd (s ++ [c]) = trimEnd s := List.rdropWhile_concat_pos _ _ _ h

lemma trimEnd_of_not {s : Text} {c : Char} (h : isWhitespace c = false) :
    trimEnd (s ++ [c]) = s ++ [c] := List.rdropWhile_concat_neg _ _ _ (by simp [h])

lemma exists_trimEnd_append (s : Text) :
    ∃ r, s = trimEnd s ++ r ∧ ∀ c ∈ r, isWhitespace c = true := by
  induction s using List.reverseRecOn with
  | nil => exact ⟨[], rfl, by simp⟩
  | append_singleton s c ih =>
      cases hc : isWhitespace c with
      | false => exact ⟨[], by rw [trimEnd_of_not hc, List.append_nil], by simp⟩
      | true =>
          obtain ⟨r, hr, hall⟩ := ih
          refine ⟨r ++ [c], ?_, ?_⟩
          · rw [trimEnd_append_singleton_of_isWhitespace hc, ← List.append_assoc, ← hr]
          · intro x hx
            rcases List.mem_append.mp hx with hx | hx
            · exact hall x hx
            · rw [List.mem_singleton.mp hx]
              exact hc

lemma not_isWhitespace_of_isDigit {c : Char} (h : c.isDigit = true) : isWhitespace c = false := by
  simp only [Char.isDigit, ge_iff_le, Bool.and_eq_true, decide_eq_true_eq, UInt32.le_iff_toNat_le]
    at h
  have hlow : 48 ≤ c.toNat := h.1
  have hhigh : c.toNat ≤ 57 := h.2
  simp only [isWhitespace, Bool.or_eq_false_iff, Bool.and_eq_false_iff, decide_eq_false_iff_not,
    beq_eq_false_iff_ne]
  omega

/-- Digits have nothing to trim. -/
lemma trim_of_digits {s : Text} (hs : s ≠ []) (h : ∀ c ∈ s, c.isDigit = true) : trim s = s := by
  obtain ⟨s, c, rfl⟩ := (List.eq_nil_or_concat s).resolve_left hs
  rw [List.concat_eq_append] at h ⊢
  have hc := not_isWhitespace_of_isDigit (h c (by simp))
  have hhead : (s ++ [c]).dropWhile isWhitespace = s ++ [c] := by
    cases s with
    | nil => simp [hc]
    | cons a s =>
        have ha := not_isWhitespace_of_isDigit (h a (by simp))
        simp [ha]
  rw [trim, hhead, trimEnd_of_not hc]

end Text

end Connect
