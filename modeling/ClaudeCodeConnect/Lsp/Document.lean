import ClaudeCodeConnect.Core.Checked
import ClaudeCodeConnect.Core.Text

/-!
# One mirrored buffer and its line index

`Document` of `lsp/documents.rs`: the text of a buffer, and the byte offset at which each of its
lines starts.  The text changes under ranged edits, and the index is patched rather than rebuilt.

* `Document.splice` -- replace a byte range and repair the index in place.
* `Document.offsetOf`, `Document.textInRange` -- from LSP positions (line, UTF-16 column) to bytes.
* `splice_new` -- **patching is rebuilding**: on a document whose index is the one computed from its
  text, a splice between two boundaries in order returns the document of the edited text.
* `positionOffset`, `offsetOf_new` -- an offset, said in terms of the lines of the text: the length
  of the lines before it, and a column inside its own.  It always is a boundary
  (`boundary_offsetAt`), so neither `offset_of` nor the slice it delimits can panic.
-/

namespace Connect

/-- `lsp_types::Position`. -/
structure Position where
  line : UInt32
  character : UInt32
  deriving DecidableEq, Repr

/-- `lsp_types::Range`; `stop` is its `end`. -/
structure Range where
  start : Position
  stop : Position
  deriving DecidableEq, Repr

/-- `TextDocumentContentChangeEvent`: a ranged edit, or a replacement of the whole text. -/
structure ContentChange where
  range : Option Range
  text : Text
  deriving DecidableEq, Repr

/-- `Document`: a text, and the table of its lines that every edit keeps up to date. -/
structure Document where
  text : Text
  /-- Byte offset of the first byte of each line. -/
  lineStarts : List ℕ
  deriving DecidableEq, Repr

/-- `'\n'`, the only terminator the index knows. -/
def isNewline (c : Char) : Bool := c == '\n'

/-- `text.match_indices('\n')`. -/
def newlineIndices (text : Text) : List ℕ := matchOffsets Char.utf8Size isNewline 0 text

/-- `compute_line_starts`: line 0 starts at 0, every other one after a newline. -/
def computeLineStarts (text : Text) : List ℕ :=
  0 :: (newlineIndices text).map fun i => i + 1

/-- `char::len_utf16`. -/
def lenUtf16 (c : Char) : ℕ := if c.val ≤ 0xFFFF then 1 else 2

/-- The loop of `char_pos_to_byte_pos`, at byte `bytePos` and UTF-16 unit `current`. -/
def charPosToBytePosFrom (utf16Pos : ℕ) : Text → ℕ → ℕ → Option ℕ
  | [], bytePos, current => if current = utf16Pos then some bytePos else none
  | c :: rest, bytePos, current =>
      if current = utf16Pos then some bytePos
      else if utf16Pos < current + lenUtf16 c then some bytePos
      else charPosToBytePosFrom utf16Pos rest (bytePos + c.utf8Size) (current + lenUtf16 c)

/-- `char_pos_to_byte_pos`: the byte a UTF-16 column is at; a column within a surrogate pair is the
byte before it, one past the end none. -/
def charPosToBytePos (line : Text) (utf16Pos : ℕ) : Option ℕ :=
  charPosToBytePosFrom utf16Pos line 0 0

/-- `if end > start && bytes[end - 1] == b { end -= 1 }`. -/
def trimByte (bytes : List UInt8) (start stop : ℕ) (b : UInt8) : Checked ℕ :=
  if start < stop then do
    let last ← orPanic .outOfBounds bytes[stop - 1]?
    return if last = b then stop - 1 else stop
  else .ok stop

namespace Document

/-- `Document::new`. -/
def new (text : Text) : Document := ⟨text, computeLineStarts text⟩

/-- `Document::set_text`: a change without a range. -/
def setText (_ : Document) (text : Text) : Document := ⟨text, computeLineStarts text⟩

/-- The closure `shift` of `splice`: `(offset + inserted.len()) - (end - start)`. -/
def shift (start stop : ℕ) (inserted : Text) (offset : ℕ) : Checked ℕ := do
  let removed ← checkedSub stop start
  checkedSub (offset + Text.len inserted) removed

/-- `Document::splice`: the bytes between two offsets are replaced, and of the table only the lines
from there on are touched. -/
def splice (d : Document) (start stop : ℕ) (inserted : Text) : Checked Document := do
  let text ← orPanic .charBoundary (replaceSlice? Char.utf8Size d.text start stop inserted)
  let head := partitionPoint (fun s => s ≤ start) d.lineStarts
  let tail := max head (partitionPoint (fun s => s ≤ stop) d.lineStarts)
  if !(Text.bytes inserted).contains 10 then
    -- the typing case: no new line starts
    let kept ← spliceVec d.lineStarts head tail []
    let lineStarts ← updateFrom (shift start stop inserted) head kept
    return ⟨text, lineStarts⟩
  else
    let added := (newlineIndices inserted).map fun i => start + i + 1
    let patched ← spliceVec d.lineStarts head tail added
    let lineStarts ← updateFrom (shift start stop inserted) (head + added.length) patched
    return ⟨text, lineStarts⟩

/-- `Document::offset_of`: a line past the end is the end of the text, a column past the end of its
line that end. -/
def offsetOf (d : Document) (p : Position) : Checked ℕ :=
  match d.lineStarts[p.line.toNat]? with
  | none => .ok (Text.len d.text)
  | some start => do
      let stop := (d.lineStarts[p.line.toNat + 1]?).getD (Text.len d.text)
      -- exclude the terminator, so that an over-long column clamps to end-of-line
      let stop ← trimByte (Text.bytes d.text) start stop 10
      let stop ← trimByte (Text.bytes d.text) start stop 13
      let line ← orPanic .charBoundary (slice? Char.utf8Size d.text start stop)
      return start + (charPosToBytePos line p.character.toNat).getD (Text.len line)

/-- The two offsets a range delimits, the second never before the first. -/
def offsetsOf (d : Document) (range : Range) : Checked (ℕ × ℕ) := do
  let start ← d.offsetOf range.start
  let stop ← d.offsetOf range.stop
  return (start, max stop start)

/-- `Document::text_in_range`. -/
def textInRange (d : Document) (range : Range) : Checked Text := do
  let (start, stop) ← d.offsetsOf range
  return (slice? Char.utf8Size d.text start stop).getD []

/-- One turn of the loop in `DocumentStore::apply`. -/
def applyChange (d : Document) (change : ContentChange) : Checked Document :=
  match change.range with
  | none => .ok (d.setText change.text)
  | some range => do
      let (start, stop) ← d.offsetsOf range
      d.splice start stop change.text

@[simp] lemma new_text (text : Text) : (new text).text = text := rfl

@[simp] lemma new_lineStarts (text : Text) : (new text).lineStarts = computeLineStarts text := rfl

end Document

/-! ## The index, read through the lines

The table is the starts of the lines of the text; this is the invariant of the document. -/

/-- The lines of a text, each with its terminator. -/
def linesOf (text : Text) : List Text := splitLines isNewline text

lemma utf8Size_of_isNewline (c : Char) (h : isNewline c = true) : c.utf8Size = 1 := by
  rw [beq_iff_eq.mp h]; rfl

lemma length_computeLineStarts (text : Text) :
    (computeLineStarts text).length = (linesOf text).length :=
  length_lineStarts utf8Size_of_isNewline 0 text

lemma getElem?_computeLineStarts {text : Text} {i : ℕ} (hi : i < (linesOf text).length) :
    (computeLineStarts text)[i]? = some (Text.len ((linesOf text).take i).flatten) :=
  getElem?_lineStarts utf8Size_of_isNewline hi

/-! ## Patching is rebuilding

`splice` touches only what is near the edit, and arrives at the table it would have computed. -/

lemma newline_in_bytes_iff (s : Text) :
    (Text.bytes s).contains 10 = true ↔ newlineIndices s ≠ [] := by
  rw [List.contains_iff_mem, show (10 : UInt8) = Text.newline.byte from rfl,
    Text.mem_bytes_ascii_iff, newlineIndices]
  generalize 0 = k
  induction s generalizing k with
  | nil => simp [matchOffsets]
  | cons c s ih =>
      simp only [matchOffsets, List.mem_cons]
      split_ifs with hc
      · have hc : Text.newline.char = c := (beq_iff_eq.mp hc).symm
        simp [hc]
      · have hc : Text.newline.char ≠ c := fun h => hc (beq_iff_eq.mpr h.symm)
        simpa [hc] using ih _

/-- The line starts an insertion at `start` brings, in the two ways they are written. -/
lemma map_newlineIndices (start : ℕ) (inserted : Text) :
    (newlineIndices inserted).map (fun i => start + i + 1)
      = (matchOffsets Char.utf8Size isNewline start inserted).map (· + 1) := by
  have h := matchOffsets_add (w := Char.utf8Size) (p := isNewline) 0 start inserted
  rw [Nat.zero_add] at h
  rw [h, List.map_map, newlineIndices]
  exact List.map_congr_left fun i _ => by simp only [Function.comp_apply]; omega

/-- Where `partition_point` separates the three blocks of the table: those up to `start`, those in
`(start, stop]`, and those after. -/
lemma partitionPoint_blocks {start stop : ℕ} (hle : start ≤ stop) {A M B : List ℕ}
    (hA : ∀ s ∈ A, s ≤ start) (hM : ∀ s ∈ M, start < s ∧ s ≤ stop) (hB : ∀ s ∈ B, stop < s) :
    partitionPoint (fun s => decide (s ≤ start)) (A ++ M ++ B) = A.length ∧
      partitionPoint (fun s => decide (s ≤ stop)) (A ++ M ++ B) = A.length + M.length := by
  constructor
  · rw [List.append_assoc]
    refine partitionPoint_append (by simpa using hA) ?_
    intro s hs
    rw [decide_eq_false_iff_not]
    rcases List.mem_append.mp hs with hs | hs
    · have := hM s hs
      omega
    · have := hB s hs
      omega
  · rw [← List.length_append]
    refine partitionPoint_append ?_ (by simpa using hB)
    intro s hs
    rw [decide_eq_true_eq]
    rcases List.mem_append.mp hs with hs | hs
    · have := hA s hs
      omega
    · exact (hM s hs).2

/-- `shift` on a start past the replaced span does not go below zero. -/
lemma shift_of_lt {start stop s : ℕ} (hle : start ≤ stop) (hs : stop < s) (inserted : Text) :
    Document.shift start stop inserted s = .ok (s + Text.len inserted - (stop - start)) := by
  rw [Document.shift, checkedSub_of_le hle]
  exact checkedSub_of_le (by omega)

/-- Sliding the last block by what was inserted less what was removed moves it to where its part now
begins. -/
lemma slide_block (start removed : ℕ) (inserted b : Text) :
    ((matchOffsets Char.utf8Size isNewline (start + removed) b).map (· + 1)).map
        (fun s => s + Text.len inserted - (start + removed - start))
      = (matchOffsets Char.utf8Size isNewline (start + Text.len inserted) b).map (· + 1) := by
  have h := matchOffsets_add (w := Char.utf8Size) (p := isNewline) 0 (start + removed) b
  have h' := matchOffsets_add (w := Char.utf8Size) (p := isNewline) 0
    (start + Text.len inserted) b
  rw [Nat.zero_add] at h h'
  rw [h, h', List.map_map, List.map_map, List.map_map]
  exact List.map_congr_left fun i _ => by simp only [Function.comp_apply]; omega

/-- **Patching is rebuilding.**  Where `m` is replaced in `a ++ m ++ b`, the starts up to `start`
are those of `a` and stay, those in `(start, stop]` are those of `m` and go, and those after `stop`
are those of `b` and slide by the same amount. -/
theorem splice_new (a m b inserted : Text) :
    (Document.new (a ++ m ++ b)).splice (Text.len a) (Text.len a + Text.len m) inserted
      = .ok (Document.new (a ++ inserted ++ b)) := by
  set start := Text.len a
  set stop := Text.len a + Text.len m
  have hle : start ≤ stop := Nat.le_add_right _ _
  -- the three blocks of the table, before and after
  set A := lineStarts Char.utf8Size isNewline 0 a
  set M := (matchOffsets Char.utf8Size isNewline start m).map (· + 1)
  set B := (matchOffsets Char.utf8Size isNewline stop b).map (· + 1)
  have hbefore : computeLineStarts (a ++ m ++ b) = A ++ M ++ B := lineStarts_append_append a m b
  have hafter : computeLineStarts (a ++ inserted ++ b)
      = A ++ (newlineIndices inserted).map (fun i => start + i + 1)
        ++ B.map (fun s => s + Text.len inserted - (stop - start)) := by
    rw [map_newlineIndices, slide_block]
    exact lineStarts_append_append a inserted b
  have hA : ∀ s ∈ A, s ≤ start := fun s hs => lineStarts_le Text.utf8Size_pos hs
  have hM : ∀ s ∈ M, start < s ∧ s ≤ stop :=
    fun s hs => succ_matchOffsets_bounds Text.utf8Size_pos hs
  have hB : ∀ s ∈ B, stop < s := fun s hs => (succ_matchOffsets_bounds Text.utf8Size_pos hs).1
  obtain ⟨hhead, htail⟩ := partitionPoint_blocks hle hA hM hB
  have hmax : max A.length (A.length + M.length) = A.length + M.length := by omega
  have hshift := fun s hs => shift_of_lt hle (hB s hs) inserted
  have htext : replaceSlice? Char.utf8Size (a ++ m ++ b) start stop inserted
      = some (a ++ inserted ++ b) :=
    (replaceSlice?_eq_some_iff Text.utf8Size_pos).mpr ⟨a, m, b, rfl, rfl, rfl, rfl⟩
  simp only [Document.splice, Document.new_text, Document.new_lineStarts, hbefore, hhead, htail,
    hmax, htext, orPanic_some, bind, Except.bind, pure, Except.pure]
  cases hnl : (Text.bytes inserted).contains 10 with
  | false =>
      have hnone : newlineIndices inserted = [] := by
        by_contra h
        rw [(newline_in_bytes_iff inserted).mpr h] at hnl
        cases hnl
      rw [hnone, List.map_nil, List.append_nil] at hafter
      have hdrain := spliceVec_append A M B []
      rw [List.append_nil] at hdrain
      simp only [Bool.not_false, if_true, hdrain, updateFrom_append hshift]
      rw [Document.new, hafter]
  | true =>
      have hpatch := spliceVec_append A M B
        ((newlineIndices inserted).map fun i => start + i + 1)
      have hslide := updateFrom_append
        (a := A ++ (newlineIndices inserted).map fun i => start + i + 1) hshift
      rw [List.length_append] at hslide
      simp only [Bool.not_true, Bool.false_eq_true, if_false, hpatch, hslide]
      rw [Document.new, hafter]

/-! ## Positions, read through the lines

A position is resolved with the table and the bytes; what it comes to is a matter of the lines. -/

/-- Drop the last character if it is `c`. -/
def stripLast (c : Char) (s : Text) : Text := if s.getLast? = some c then s.dropLast else s

/-- A line without its terminator, as `offset_of` removes it. -/
def lineContent (line : Text) : Text := stripLast '\r' (stripLast '\n' line)

/-- Byte offset of a column within its line, clamped to the end of the content. -/
def columnOffset (line : Text) (character : ℕ) : ℕ :=
  (charPosToBytePos (lineContent line) character).getD (Text.len (lineContent line))

/-- Byte offset of a line and column, said in terms of the lines of the text: the length of the
lines before it, and the column within its own.  A line past the last one is the end of the text. -/
def offsetAt (text : Text) (line character : ℕ) : ℕ :=
  match (linesOf text)[line]? with
  | none => Text.len text
  | some l => Text.len ((linesOf text).take line).flatten + columnOffset l character

/-- The same of a position. -/
def positionOffset (text : Text) (p : Position) : ℕ :=
  offsetAt text p.line.toNat p.character.toNat

lemma exists_stripLast_append (c : Char) (s : Text) : ∃ r, s = stripLast c s ++ r := by
  rw [stripLast]
  split_ifs with h
  · exact ⟨[c], (List.dropLast_append_getLast? c h).symm⟩
  · exact ⟨[], (List.append_nil s).symm⟩

lemma exists_lineContent_append (line : Text) : ∃ r, line = lineContent line ++ r := by
  obtain ⟨r, hr⟩ := exists_stripLast_append '\n' line
  obtain ⟨r', hr'⟩ := exists_stripLast_append '\r' (stripLast '\n' line)
  refine ⟨r' ++ r, ?_⟩
  rw [lineContent, ← List.append_assoc, ← hr', ← hr]

/-- Trimming a byte off the end of a part is dropping that character from it. -/
lemma trimByte_eq (x : Text.Ascii) (a m b : Text) :
    trimByte (Text.bytes (a ++ m ++ b)) (Text.len a) (Text.len a + Text.len m) x.byte
      = .ok (Text.len a + Text.len (stripLast x.char m)) := by
  rcases List.eq_nil_or_concat m with rfl | ⟨m, c, rfl⟩
  · simp [trimByte, stripLast]
  · rw [List.concat_eq_append]
    have hne : m ++ [c] ≠ [] := by simp
    have hc := c.utf8Size_pos
    have hlen : Text.len (m ++ [c]) = Text.len m + c.utf8Size := by simp [Text.len]
    rw [trimByte, if_pos (by omega), Text.getElem?_bytes_pred hne]
    have hlast := Text.getLast?_bytes_ascii_iff x (s := m) (c := c)
    obtain ⟨y, hy⟩ : ∃ y, (Text.bytes (m ++ [c])).getLast? = some y := by
      have hbytes : Text.bytes (m ++ [c]) ≠ [] := by
        intro hnil
        have := Text.length_bytes (m ++ [c])
        rw [hnil, List.length_nil] at this
        omega
      exact ⟨_, List.getLast?_eq_some_getLast hbytes⟩
    rw [hy] at hlast ⊢
    simp only [stripLast, List.getLast?_concat, List.dropLast_concat, Option.some.injEq] at hlast ⊢
    by_cases h : c = x.char
    · subst h
      have hsize := Text.utf8Size_ascii x
      simp only [orPanic_some, bind, Except.bind, hlast.mpr rfl, if_true, pure, Except.pure]
      congr 1
      omega
    · have hy' : y ≠ x.byte := fun hxy => h (hlast.mp hxy)
      simp only [orPanic_some, bind, Except.bind, hy', if_false, pure, Except.pure, h]

lemma charPosToBytePosFrom_boundary {utf16Pos n bytePos current : ℕ} {line : Text}
    (h : charPosToBytePosFrom utf16Pos line bytePos current = some n) :
    ∃ k, n = bytePos + k ∧ IsBoundary Char.utf8Size line k := by
  induction line generalizing bytePos current with
  | nil =>
      simp only [charPosToBytePosFrom] at h
      split_ifs at h
      cases h
      exact ⟨0, rfl, IsBoundary.zero _⟩
  | cons c line ih =>
      simp only [charPosToBytePosFrom] at h
      split_ifs at h
      · cases h
        exact ⟨0, rfl, IsBoundary.zero _⟩
      · cases h
        exact ⟨0, rfl, IsBoundary.zero _⟩
      · obtain ⟨k, rfl, a, b, rfl, rfl⟩ := ih h
        exact ⟨c.utf8Size + Text.len a, by rw [Text.len]; omega, c :: a, b, rfl, rfl⟩

lemma boundary_columnOffset (line : Text) (character : ℕ) :
    IsBoundary Char.utf8Size (lineContent line) (columnOffset line character) := by
  rw [columnOffset]
  cases h : charPosToBytePos (lineContent line) character with
  | none => exact IsBoundary.full _
  | some n =>
      obtain ⟨k, rfl, hk⟩ := charPosToBytePosFrom_boundary h
      simpa using hk

/-- The text around one of its lines. -/
lemma eq_take_line_drop {text line : Text} {i : ℕ} (h : (linesOf text)[i]? = some line) :
    text = ((linesOf text).take i).flatten ++ line ++ ((linesOf text).drop (i + 1)).flatten := by
  obtain ⟨hi, rfl⟩ := List.getElem?_eq_some_iff.mp h
  conv_lhs => rw [← flatten_splitLines (p := isNewline) text]
  rw [← List.flatten_singleton (l := (linesOf text)[i]), ← List.flatten_append,
    ← List.flatten_append, ← List.take_succ_eq_append_getElem hi, List.take_append_drop]
  rfl

/-- The start of the next line, or the end of the text on the last one, is where a line ends. -/
lemma getD_next_lineStart {text line : Text} {i : ℕ} (h : (linesOf text)[i]? = some line) :
    ((computeLineStarts text)[i + 1]?).getD (Text.len text)
      = Text.len ((linesOf text).take i).flatten + Text.len line := by
  by_cases hnext : i + 1 < (linesOf text).length
  · rw [getElem?_computeLineStarts hnext, Option.getD_some, List.take_add_one, h]
    simp
  · have hnone : (computeLineStarts text)[i + 1]? = none := by
      rw [List.getElem?_eq_none_iff, length_computeLineStarts]
      omega
    have htext := congrArg Text.len (eq_take_line_drop h)
    rw [List.drop_eq_nil_of_le (by omega)] at htext
    simpa [hnone] using htext

/-- The two trims of `offset_of` leave the content of the line. -/
lemma trimByte_line (a line b : Text) :
    (do
      let stop ← trimByte (Text.bytes (a ++ line ++ b)) (Text.len a) (Text.len a + Text.len line) 10
      trimByte (Text.bytes (a ++ line ++ b)) (Text.len a) stop 13)
      = .ok (Text.len a + Text.len (lineContent line)) := by
  obtain ⟨r, hr⟩ := exists_stripLast_append '\n' line
  have hlf := trimByte_eq Text.newline a line b
  have hcr := trimByte_eq Text.carriageReturn a (stripLast '\n' line) (r ++ b)
  rw [← List.append_assoc, List.append_assoc a, ← hr] at hcr
  show Except.bind (trimByte _ _ _ Text.newline.byte) _ = _
  rw [hlf]
  exact hcr

lemma slice?_lineContent (a line b : Text) :
    slice? Char.utf8Size (a ++ line ++ b) (Text.len a) (Text.len a + Text.len (lineContent line))
      = some (lineContent line) := by
  obtain ⟨r, hr⟩ := exists_lineContent_append line
  refine (slice?_eq_some_iff Text.utf8Size_pos).mpr ⟨a, r ++ b, ?_, rfl, rfl⟩
  calc a ++ line ++ b = a ++ (lineContent line ++ r) ++ b := by rw [← hr]
    _ = a ++ lineContent line ++ (r ++ b) := by simp

/-- **Offsets through the lines.**  `offset_of` on a document whose index is the one computed from
its text is `positionOffset`; in particular it does not panic. -/
theorem offsetOf_new (text : Text) (p : Position) :
    (Document.new text).offsetOf p = .ok (positionOffset text p) := by
  simp only [Document.offsetOf, positionOffset, offsetAt, Document.new_text,
    Document.new_lineStarts]
  cases hline : (linesOf text)[p.line.toNat]? with
  | none =>
      have hlen : (computeLineStarts text)[p.line.toNat]? = none := by
        rw [List.getElem?_eq_none_iff] at hline ⊢
        rwa [length_computeLineStarts]
      rw [hlen]
  | some line =>
      obtain ⟨hi, -⟩ := List.getElem?_eq_some_iff.mp hline
      set a := ((linesOf text).take p.line.toNat).flatten with ha
      set b := ((linesOf text).drop (p.line.toNat + 1)).flatten
      have htext : text = a ++ line ++ b := eq_take_line_drop hline
      have hstop : ((computeLineStarts text)[p.line.toNat + 1]?).getD (Text.len text)
          = Text.len a + Text.len line := getD_next_lineStart hline
      have htrim := trimByte_line a line b
      have hslice := slice?_lineContent a line b
      rw [← htext] at htrim hslice
      rw [getElem?_computeLineStarts hi, ← ha]
      simp only [hstop]
      rw [← bind_assoc, htrim]
      simp only [bind, Except.bind, hslice, orPanic_some, pure, Except.pure, columnOffset]

/-- **Offsets are boundaries.** -/
theorem boundary_offsetAt (text : Text) (line character : ℕ) :
    IsBoundary Char.utf8Size text (offsetAt text line character) := by
  rw [offsetAt]
  cases hline : (linesOf text)[line]? with
  | none => exact IsBoundary.full text
  | some l =>
      obtain ⟨r, hr⟩ := exists_lineContent_append l
      have htext := eq_take_line_drop hline
      have h := (boundary_columnOffset l character).shift
        (a := ((linesOf text).take line).flatten)
        (b := r ++ ((linesOf text).drop (line + 1)).flatten)
      rw [← List.append_assoc, List.append_assoc _ (lineContent l), ← hr, ← htext] at h
      exact h

/-- The offsets a range delimits in a text, the second never before the first. -/
def rangeOffsets (text : Text) (range : Range) : ℕ × ℕ :=
  (positionOffset text range.start,
    max (positionOffset text range.stop) (positionOffset text range.start))

/-- What a range names in a text. -/
def rangeText (text : Text) (range : Range) : Text :=
  (slice? Char.utf8Size text (rangeOffsets text range).1 (rangeOffsets text range).2).getD []

lemma boundary_rangeOffsets (text : Text) (range : Range) :
    IsBoundary Char.utf8Size text (rangeOffsets text range).1 ∧
      IsBoundary Char.utf8Size text (rangeOffsets text range).2 ∧
        (rangeOffsets text range).1 ≤ (rangeOffsets text range).2 := by
  have hs : IsBoundary Char.utf8Size text (positionOffset text range.start) :=
    boundary_offsetAt text _ _
  have he : IsBoundary Char.utf8Size text (positionOffset text range.stop) :=
    boundary_offsetAt text _ _
  refine ⟨hs, ?_, Nat.le_max_right _ _⟩
  rcases Nat.le_total (positionOffset text range.stop) (positionOffset text range.start) with h | h
  · simpa [rangeOffsets, Nat.max_eq_right h] using hs
  · simpa [rangeOffsets, Nat.max_eq_left h] using he

theorem offsetsOf_new (text : Text) (range : Range) :
    (Document.new text).offsetsOf range = .ok (rangeOffsets text range) := by
  simp only [Document.offsetsOf, offsetOf_new, bind, Except.bind, pure, Except.pure, rangeOffsets]

theorem textInRange_new (text : Text) (range : Range) :
    (Document.new text).textInRange range = .ok (rangeText text range) := by
  simp only [Document.textInRange, offsetsOf_new, bind, Except.bind, pure, Except.pure, rangeText,
    Document.new_text]

end Connect
