import ClaudeCodeConnect.Core.RustStr
import Mathlib.Data.Char
import Mathlib.Data.List.Lex
import Mathlib.Tactic.Ring

/-!
# Numbers compared as text

Rust orders strings by their bytes, which is the order of their characters: on `Text` the
lexicographic order of the library. This file compares that order with the numeric one on what
`toDigits` writes.

* `toDigits_lt_iff` -- of two numbers `m < n`, the text of `m` is first exactly when `m` is still at
  most `n` after it has been filled up with zeros to the length of `n`. So `1` is before `10` and
  `9` is not.
* `append_dot_lt_iff` -- what follows a separator that sorts before every digit does not disturb
  the comparison of two different numbers.
-/

namespace Connect

namespace Text

lemma append_lt_append_iff (p a b : Text) : p ++ a < p ++ b ↔ a < b := by
  induction p with
  | nil => rfl
  | cons c p ih => simpa using ih

/-! ## Values of digit strings

Of two digit strings of one length, the one of the smaller value is also the smaller text;
everything about the order of written numbers comes from that. -/

/-- The number a string of digits writes. -/
def value (s : Text) : ℕ := Nat.ofDigitChars 10 s 0

lemma value_toDigits (n : ℕ) : value (toDigits n) = n := Nat.ofDigitChars_ten_toDigits

/-- What one digit is worth. -/
def digitValue (c : Char) : ℕ := c.toNat - '0'.toNat

lemma value_cons (c : Char) (s : Text) :
    value (c :: s) = digitValue c * 10 ^ s.length + value s := by
  rw [value, Nat.ofDigitChars_cons, Nat.ofDigitChars_eq_ofDigitChars_zero, value, digitValue]
  ring

lemma isDigit_bounds {c : Char} (h : c.isDigit = true) : 48 ≤ c.toNat ∧ c.toNat ≤ 57 := by
  simp only [Char.isDigit, ge_iff_le, Bool.and_eq_true, decide_eq_true_eq, UInt32.le_iff_toNat_le]
    at h
  exact h

lemma value_lt {s : Text} (h : ∀ c ∈ s, c.isDigit = true) : value s < 10 ^ s.length := by
  induction s with
  | nil => simp [value]
  | cons c s ih =>
      have htail := ih fun d hd => h d (List.mem_cons_of_mem c hd)
      have hdigit : digitValue c ≤ 9 := by
        have hc := isDigit_bounds (h c List.mem_cons_self)
        rw [digitValue, show '0'.toNat = 48 from rfl]
        omega
      calc value (c :: s) = digitValue c * 10 ^ s.length + value s := value_cons c s
        _ < digitValue c * 10 ^ s.length + 10 ^ s.length := by omega
        _ = (digitValue c + 1) * 10 ^ s.length := by ring
        _ ≤ 10 * 10 ^ s.length := Nat.mul_le_mul_right _ (by omega)
        _ = 10 ^ (c :: s).length := by rw [List.length_cons]; ring

lemma value_append (a b : Text) : value (a ++ b) = value a * 10 ^ b.length + value b := by
  induction a with
  | nil => simp [value]
  | cons c a ih =>
      rw [List.cons_append, value_cons, ih, value_cons, List.length_append, pow_add]
      ring

lemma digitValue_lt_iff {c d : Char} (hc : c.isDigit = true) (hd : d.isDigit = true) :
    digitValue c < digitValue d ↔ c < d := by
  have hc := isDigit_bounds hc
  have hd := isDigit_bounds hd
  have hlt : c < d ↔ c.toNat < d.toNat := by
    rw [Char.lt_def, UInt32.lt_iff_toNat_lt]
    rfl
  rw [hlt, digitValue, digitValue, show '0'.toNat = 48 from rfl]
  omega

/-- Of two strings of digits of one length, the first as text is the smaller number. -/
lemma lt_iff_value_lt {a b : Text} (hlen : a.length = b.length)
    (ha : ∀ c ∈ a, c.isDigit = true) (hb : ∀ c ∈ b, c.isDigit = true) :
    a < b ↔ value a < value b := by
  induction a generalizing b with
  | nil =>
      cases b with
      | nil => simp
      | cons d b => simp at hlen
  | cons c a ih =>
      cases b with
      | nil => simp at hlen
      | cons d b =>
          have hlen' : a.length = b.length := by simpa using hlen
          have ha' : ∀ x ∈ a, x.isDigit = true := fun x hx => ha x (List.mem_cons_of_mem c hx)
          have hb' : ∀ x ∈ b, x.isDigit = true := fun x hx => hb x (List.mem_cons_of_mem d hx)
          have hc := ha c List.mem_cons_self
          have hd := hb d List.mem_cons_self
          have hva := value_lt ha'
          have hvb := value_lt hb'
          rw [List.cons_lt_cons_iff, ih hlen' ha' hb', value_cons, value_cons, hlen']
          rw [hlen'] at hva
          rcases lt_trichotomy (digitValue c) (digitValue d) with h | h | h
          · have hcd := (digitValue_lt_iff hc hd).mp h
            have hstep : (digitValue c + 1) * 10 ^ b.length ≤ digitValue d * 10 ^ b.length :=
              Nat.mul_le_mul_right _ h
            rw [add_mul, one_mul] at hstep
            exact ⟨fun _ => by omega, fun _ => Or.inl hcd⟩
          · have hcd : c = d := by
              have h1 := (digitValue_lt_iff hc hd).not.mp (by omega)
              have h2 := (digitValue_lt_iff hd hc).not.mp (by omega)
              exact le_antisymm (not_lt.mp h2) (not_lt.mp h1)
            subst hcd
            simp
          · have hdc := (digitValue_lt_iff hd hc).mp h
            have hstep : (digitValue d + 1) * 10 ^ b.length ≤ digitValue c * 10 ^ b.length :=
              Nat.mul_le_mul_right _ h
            rw [add_mul, one_mul] at hstep
            constructor
            · rintro (h' | ⟨rfl, -⟩)
              · exact absurd h' (lt_asymm hdc)
              · exact absurd hdc (lt_irrefl c)
            · intro h'
              omega

/-- A string compared with a longer one: its own length decides, and equal so far is before. -/
lemma lt_append_iff {a b : Text} (rest : Text) (hlen : a.length = b.length) :
    a < b ++ rest ↔ a < b ∨ (a = b ∧ rest ≠ []) := by
  induction a generalizing b with
  | nil =>
      obtain rfl : b = [] := List.length_eq_zero_iff.mp hlen.symm
      cases rest <;> simp
  | cons c a ih =>
      cases b with
      | nil => simp at hlen
      | cons d b =>
          have hlen' : a.length = b.length := by simpa using hlen
          rw [List.cons_append, List.cons_lt_cons_iff, List.cons_lt_cons_iff, ih hlen']
          constructor
          · rintro (h | ⟨rfl, h | ⟨rfl, h⟩⟩)
            · exact Or.inl (Or.inl h)
            · exact Or.inl (Or.inr ⟨rfl, h⟩)
            · exact Or.inr ⟨rfl, h⟩
          · rintro ((h | ⟨rfl, h⟩) | ⟨heq, h⟩)
            · exact Or.inl h
            · exact Or.inr ⟨rfl, Or.inl h⟩
            · obtain ⟨rfl, rfl⟩ := List.cons.inj heq
              exact Or.inr ⟨rfl, Or.inr ⟨rfl, h⟩⟩

/-! ## Numbers

Two numbers of any lengths: the shorter one is filled up with zeros to the length of the longer. -/

/-- How many decimal digits a number has. -/
def numDigits (n : ℕ) : ℕ := (toDigits n).length

lemma numDigits_mono {m n : ℕ} (h : m ≤ n) : numDigits m ≤ numDigits n :=
  (Nat.length_toDigits_le_iff (by decide) Nat.length_toDigits_pos).mpr
    (h.trans_lt ((Nat.length_toDigits_le_iff (by decide) Nat.length_toDigits_pos).mp le_rfl))

/-- **When text order agrees with the order of numbers**: exactly when the smaller one, filled up
    with zeros to the length of the larger, has not passed it. -/
theorem toDigits_lt_iff {m n : ℕ} (h : m < n) :
    toDigits m < toDigits n ↔ m * 10 ^ (numDigits n - numDigits m) ≤ n := by
  have hm : ∀ c ∈ toDigits m, c.isDigit = true := fun c => isDigit_of_mem_toDigits
  have hn : ∀ c ∈ toDigits n, c.isDigit = true := fun c => isDigit_of_mem_toDigits
  -- the digits of `n` are as many as `m` has, then `rest`
  obtain ⟨head, rest, hsplit, hlen⟩ : ∃ head rest, toDigits n = head ++ rest ∧
      (toDigits m).length = head.length :=
    ⟨(toDigits n).take (numDigits m), (toDigits n).drop (numDigits m),
      (List.take_append_drop _ _).symm, by
        rw [List.length_take]
        exact (min_eq_left (numDigits_mono h.le)).symm⟩
  have hdigits : ∀ c ∈ head ++ rest, c.isDigit = true := hsplit ▸ hn
  have hhead : ∀ c ∈ head, c.isDigit = true := fun c hc => hdigits c (List.mem_append_left rest hc)
  have hrest : ∀ c ∈ rest, c.isDigit = true := fun c hc => hdigits c (List.mem_append_right head hc)
  have hgap : numDigits n - numDigits m = rest.length := by
    rw [numDigits, numDigits, hsplit, List.length_append, hlen]
    omega
  have hvalue : n = value head * 10 ^ rest.length + value rest := by
    rw [← value_append, ← hsplit, value_toDigits]
  have hsmall := value_lt hrest
  rw [hsplit, lt_append_iff rest hlen, lt_iff_value_lt hlen hm hhead, value_toDigits, hgap]
  constructor
  · rintro (hlt | ⟨heq, -⟩)
    · calc m * 10 ^ rest.length ≤ value head * 10 ^ rest.length := Nat.mul_le_mul_right _ hlt.le
        _ ≤ n := by omega
    · calc m * 10 ^ rest.length = value head * 10 ^ rest.length := by rw [← heq, value_toDigits]
        _ ≤ n := by omega
  · intro hle
    have hmhead : m ≤ value head := by
      by_contra hcon
      have hstep : (value head + 1) * 10 ^ rest.length ≤ m * 10 ^ rest.length :=
        Nat.mul_le_mul_right _ (not_le.mp hcon)
      rw [add_mul, one_mul] at hstep
      omega
    rcases hmhead.lt_or_eq with hlt | heq
    · exact Or.inl hlt
    · refine Or.inr ⟨?_, ?_⟩
      · -- equal as numbers and of one length, so equal as strings
        have h1 := (lt_iff_value_lt hlen hm hhead).not.mpr (by rw [value_toDigits]; omega)
        have h2 := (lt_iff_value_lt hlen.symm hhead hm).not.mpr (by rw [value_toDigits]; omega)
        exact le_antisymm (not_lt.mp h2) (not_lt.mp h1)
      · rintro rfl
        have hnil : n = value head := by simpa [value] using hvalue
        omega

/-- **A separator before every digit keeps the order of two different numbers**, whatever comes
    after it. -/
theorem append_dot_lt_iff {a b : Text} (hab : a ≠ b) (ha : ∀ c ∈ a, c.isDigit = true)
    (hb : ∀ c ∈ b, c.isDigit = true) (x y : Text) :
    a ++ '.' :: x < b ++ '.' :: y ↔ a < b := by
  have hdot : ∀ c : Char, c.isDigit = true → '.' < c := by
    intro c hc
    have hc := isDigit_bounds hc
    rw [Char.lt_def, UInt32.lt_iff_toNat_lt]
    show 46 < c.toNat
    omega
  induction a generalizing b with
  | nil =>
      cases b with
      | nil => exact absurd rfl hab
      | cons d b => simp [List.cons_lt_cons_iff, hdot d (hb d List.mem_cons_self)]
  | cons c a ih =>
      have hc := hdot c (ha c List.mem_cons_self)
      cases b with
      | nil => simp [List.cons_lt_cons_iff, lt_asymm hc, hc.ne']
      | cons d b =>
          by_cases hcd : c = d
          · subst hcd
            have hab' : a ≠ b := fun h => hab (by rw [h])
            have ih := ih hab' (fun e he => ha e (List.mem_cons_of_mem c he))
              (fun e he => hb e (List.mem_cons_of_mem c he))
            simpa using ih
          · simp [List.cons_lt_cons_iff, hcd]

end Text

end Connect
