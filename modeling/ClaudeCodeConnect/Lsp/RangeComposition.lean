import ClaudeCodeConnect.Lsp.DiskRead
import Mathlib.Order.Bounds.Basic

/-!
# Positions in order

What `offset_of` is as a function of the position: the largest boundary of the line's content that
the column reaches, and so monotone, clamps included.

* `columnOffset_eq` -- the loop of `char_pos_to_byte_pos` stops at the longest prefix of the content
  with at most that many UTF-16 units.
* `positionOffset_mono` -- positions in order have offsets in order: within a line by the columns,
  across lines because a line's content ends before the next line starts.
* `ranges_compose` -- adjacent ranges name adjacent texts.
-/

namespace Connect

/-- The order LSP has on positions. -/
def Position.Before (p q : Position) : Prop :=
  p.line < q.line ∨ p.line = q.line ∧ p.character ≤ q.character

lemma Position.Before.trans {p q r : Position} (hpq : p.Before q) (hqr : q.Before r) :
    p.Before r := by
  rcases hpq with hpq | ⟨hpq, hpq'⟩ <;> rcases hqr with hqr | ⟨hqr, hqr'⟩
  · exact Or.inl (UInt32.lt_trans hpq hqr)
  · exact Or.inl (hqr ▸ hpq)
  · exact Or.inl (hpq ▸ hqr)
  · exact Or.inr ⟨hpq.trans hqr, UInt32.le_trans hpq' hqr'⟩

/-! ## Columns

A column counts UTF-16 code units; in a surrogate pair it is the character's start, past the end it
is the end. -/

lemma lenUtf16_pos (c : Char) : 0 < lenUtf16 c := by
  rw [lenUtf16]
  split_ifs <;> omega

/-- The part of a line's content before a column. -/
def beforeColumn (content : Text) (character : ℕ) : Text := takeWeight lenUtf16 character content

lemma charPosToBytePosFrom_getD (line : Text) {utf16Pos current : ℕ} (bytePos : ℕ)
    (h : current ≤ utf16Pos) :
    (charPosToBytePosFrom utf16Pos line bytePos current).getD (bytePos + Text.len line)
      = bytePos + Text.len (beforeColumn line (utf16Pos - current)) := by
  induction line generalizing bytePos current with
  | nil => rw [charPosToBytePosFrom]; split_ifs <;> rfl
  | cons c line ih =>
      have hc := lenUtf16_pos c
      rw [charPosToBytePosFrom, beforeColumn, takeWeight]
      split_ifs with heq hlt hfits hfits hfits
      · omega
      · rfl
      · omega
      · rfl
      · have ih := ih (bytePos + c.utf8Size) (show current + lenUtf16 c ≤ utf16Pos by omega)
        have hunits : utf16Pos - (current + lenUtf16 c) = utf16Pos - current - lenUtf16 c := by
          omega
        rw [hunits] at ih
        simp only [Text.len, weight_cons, ← Nat.add_assoc] at ih ⊢
        exact ih
      · omega

/-- **Where a column is**: after the longest prefix of the content that it covers. -/
theorem columnOffset_eq (line : Text) (character : ℕ) :
    columnOffset line character = Text.len (beforeColumn (lineContent line) character) := by
  have h := charPosToBytePosFrom_getD (lineContent line) 0 (Nat.zero_le character)
  rw [Nat.zero_add, Nat.zero_add, Nat.sub_zero] at h
  exact h

lemma columnOffset_mono (line : Text) {c c' : ℕ} (h : c ≤ c') :
    columnOffset line c ≤ columnOffset line c' := by
  rw [columnOffset_eq, columnOffset_eq]
  exact weight_le_of_prefix (takeWeight_mono h _)

/-- The offset in a line's content: the largest boundary with at most as many UTF-16 units before it
as the column says. -/
theorem isGreatest_columnOffset (line : Text) (character : ℕ) :
    IsGreatest {b | ∃ u rest, lineContent line = u ++ rest ∧ Text.len u = b ∧
      weight lenUtf16 u ≤ character} (columnOffset line character) := by
  rw [columnOffset_eq]
  constructor
  · obtain ⟨rest, hrest⟩ := takeWeight_isPrefix (w := lenUtf16) character (lineContent line)
    exact ⟨_, rest, hrest.symm, rfl, weight_takeWeight_le _ _⟩
  · rintro b ⟨u, rest, heq, rfl, hu⟩
    exact weight_le_of_prefix (prefix_takeWeight ⟨rest, heq.symm⟩ hu)

/-! ## Positions

Offsets follow the order of positions, so ranges that touch compose. -/

/-- **Positions in order have offsets in order.** -/
theorem positionOffset_mono (text : Text) {p q : Position} (h : p.Before q) :
    positionOffset text p ≤ positionOffset text q := by
  rw [positionOffset, positionOffset]
  rcases h with hline | ⟨hline, hcharacter⟩
  · have hline : p.line.toNat < q.line.toNat := hline
    by_cases hp : p.line.toNat < (linesOf text).length
    · have hend := offsetAt_le_lineEnd hp p.character.toNat
      by_cases hq : q.line.toNat < (linesOf text).length
      · -- the next line starts no later than the later line does
        calc offsetAt text p.line.toNat p.character.toNat
            ≤ Text.len ((linesOf text).take (p.line.toNat + 1)).flatten := hend
          _ ≤ Text.len ((linesOf text).take q.line.toNat).flatten := len_take_mono _ hline
          _ ≤ offsetAt text q.line.toNat q.character.toNat := lineStart_le_offsetAt hq _
      · have hlen : offsetAt text q.line.toNat q.character.toNat = Text.len text := by
          rw [offsetAt, List.getElem?_eq_none (not_lt.mp hq)]
        rw [hlen]
        exact (boundary_offsetAt text _ _).le
    · have hq : ¬ q.line.toNat < (linesOf text).length := by omega
      rw [offsetAt, offsetAt, List.getElem?_eq_none (not_lt.mp hp),
        List.getElem?_eq_none (not_lt.mp hq)]
  · rw [hline, offsetAt, offsetAt]
    cases (linesOf text)[q.line.toNat]? with
    | none => exact le_rfl
    | some line => exact Nat.add_le_add_left (columnOffset_mono line hcharacter) _

lemma rangeOffsets_of_before (text : Text) {p q : Position} (h : p.Before q) :
    rangeOffsets text ⟨p, q⟩ = (positionOffset text p, positionOffset text q) := by
  rw [rangeOffsets, Nat.max_eq_left (positionOffset_mono text h)]

/-- **Ranges compose.** For positions in order the offsets are in order, within the text and on
boundaries, the texts of two adjacent ranges make the text of the whole, and on a line of the index
an offset is the line's start and the largest boundary of its content that the column reaches. -/
theorem ranges_compose {d : Document} (hd : d.lineStarts = computeLineStarts d.text)
    {p q r : Position} (hpq : p.Before q) (hqr : q.Before r) :
    (∃ a b c, d.offsetOf p = .ok a ∧ d.offsetOf q = .ok b ∧ d.offsetOf r = .ok c ∧
      a ≤ b ∧ b ≤ c ∧ c ≤ Text.len d.text ∧
      IsBoundary Char.utf8Size d.text a ∧ IsBoundary Char.utf8Size d.text b ∧
      IsBoundary Char.utf8Size d.text c) ∧
    (∃ u v, d.textInRange ⟨p, q⟩ = .ok u ∧ d.textInRange ⟨q, r⟩ = .ok v ∧
      d.textInRange ⟨p, r⟩ = .ok (u ++ v)) ∧
    ∀ start, d.lineStarts[p.line.toNat]? = some start →
      ∃ line b, (linesOf d.text)[p.line.toNat]? = some line ∧ d.offsetOf p = .ok (start + b) ∧
        IsGreatest {b | ∃ u rest, lineContent line = u ++ rest ∧ Text.len u = b ∧
          weight lenUtf16 u ≤ p.character.toNat} b := by
  obtain ⟨text, rfl⟩ : ∃ text, d = Document.new text := by
    refine ⟨d.text, ?_⟩
    rw [Document.new, ← hd]
  simp only [Document.new_text, Document.new_lineStarts, offsetOf_new, textInRange_new]
  have hp : IsBoundary Char.utf8Size text (positionOffset text p) := boundary_offsetAt text _ _
  have hq : IsBoundary Char.utf8Size text (positionOffset text q) := boundary_offsetAt text _ _
  have hr : IsBoundary Char.utf8Size text (positionOffset text r) := boundary_offsetAt text _ _
  have hab := positionOffset_mono text hpq
  have hbc := positionOffset_mono text hqr
  refine ⟨⟨_, _, _, rfl, rfl, rfl, hab, hbc, hr.le, hp, hq, hr⟩, ?_, fun start hstart => ?_⟩
  · obtain ⟨u, v, hu, hv, huv⟩ := slice?_compose Text.utf8Size_pos hp hq hr hab hbc
    refine ⟨u, v, ?_, ?_, ?_⟩
    · rw [rangeText, rangeOffsets_of_before text hpq, hu, Option.getD_some]
    · rw [rangeText, rangeOffsets_of_before text hqr, hv, Option.getD_some]
    · rw [rangeText, rangeOffsets_of_before text (hpq.trans hqr), huv, Option.getD_some]
  · obtain ⟨hlt, -⟩ := List.getElem?_eq_some_iff.mp hstart
    rw [length_computeLineStarts] at hlt
    rw [getElem?_computeLineStarts hlt, Option.some.injEq] at hstart
    refine ⟨(linesOf text)[p.line.toNat], _, List.getElem?_eq_getElem hlt, ?_,
      isGreatest_columnOffset _ _⟩
    rw [positionOffset, offsetAt, List.getElem?_eq_getElem hlt, hstart]

/-- Past the end of a line, inside a surrogate pair, and past the end of the text. -/
theorem ranges_compose_clamped :
    let d := Document.new "a𝕏\r\nb".toList
    let p : Position := ⟨0, 2⟩
    let q : Position := ⟨0, 9⟩
    let r : Position := ⟨7, 0⟩
    ∃ u v, d.textInRange ⟨p, q⟩ = .ok u ∧ d.textInRange ⟨q, r⟩ = .ok v ∧
      d.textInRange ⟨p, r⟩ = .ok (u ++ v) := by
  intro d p q r
  have hpq : p.Before q := Or.inr ⟨rfl, by decide⟩
  have hqr : q.Before r := Or.inl (by decide)
  exact (ranges_compose rfl hpq hqr).2.1

end Connect
