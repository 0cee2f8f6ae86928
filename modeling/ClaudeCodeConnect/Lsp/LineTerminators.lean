import ClaudeCodeConnect.Lsp.RangeComposition

/-!
# What ends a line

LSP ends a line at `\n`, at `\r\n` and at a `\r` alone.  The line index knows `\n` only, and
`offset_of` takes a `\r` off the end of a line's content; this file says which lines that makes.

* `eolLines` -- the lines of a text, each with its terminator, where it is a parameter what makes a
  `\r` that no `\n` follows a terminator: always (`lspLoneCr`), or only at the very end of the
  text (`finalCr`).
* `positionOffset_eq_eolOffset` -- `offset_of` is the offset of a position in the lines of the
  second kind.
* `eolLines_lsp_eq` -- on a text in which every `\r` stands before a `\n` or ends the text these are
  the lines LSP has, so there a position is where LSP puts it.
* `offsetOf_and_disk_eq_eol` -- all of it: an open document, a file read through the cached index,
  and where the two agree with LSP.  `not_forall_offsetOf_lsp` is a file with old Mac line ends.
-/

namespace Connect

/-! ## The lines of a text

The specification knows three terminators; these are the lines by any choice of them. -/

/-- The lines of a text, each as its content and its terminator; `loneCr` tells, of what follows a
`\r` that no `\n` follows, whether the `\r` ends its line. -/
def eolLines (loneCr : Text → Bool) : Text → List (Text × Text)
  | [] => [([], [])]
  | '\r' :: '\n' :: rest => ([], ['\r', '\n']) :: eolLines loneCr rest
  | c :: rest =>
      if c = '\n' ∨ (c = '\r' ∧ loneCr rest = true) then ([], [c]) :: eolLines loneCr rest
      else match eolLines loneCr rest with
        | [] => [([c], [])]
        | (content, terminator) :: lines => (c :: content, terminator) :: lines

/-- LSP: a `\r` alone ends a line. -/
def lspLoneCr : Text → Bool := fun _ => true

/-- A `\r` alone ends a line where it ends the text, and is a character like any other elsewhere. -/
def finalCr : Text → Bool := fun rest => rest.isEmpty

/-- The offset of a position: the length of the lines before its own, terminators included, and of
the part of its line's content that the column covers. A line past the last one is the end of the
text. -/
def eolOffset (loneCr : Text → Bool) (text : Text) (p : Position) : ℕ :=
  match (eolLines loneCr text)[p.line.toNat]? with
  | none => Text.len text
  | some (content, _) =>
      Text.len (((eolLines loneCr text).take p.line.toNat).map fun l => l.1 ++ l.2).flatten
        + Text.len (beforeColumn content p.character.toNat)

/-- What a range names: the text from its first offset to its second, empty if they are not in
order. -/
def eolRange (loneCr : Text → Bool) (text : Text) (range : Range) : Text :=
  (slice? Char.utf8Size text (eolOffset loneCr text range.start)
    (max (eolOffset loneCr text range.stop) (eolOffset loneCr text range.start))).getD []

/-! ## Against the lines of the index

The index knows one.  A line of it is a line by `\n` and `\r\n`, but for a carriage return at the
very end. -/

/-- A line of the index as its content and its terminator. -/
def indexLine (line : Text) : Text × Text :=
  (lineContent line, line.drop (lineContent line).length)

lemma indexLine_append (line : Text) : (indexLine line).1 ++ (indexLine line).2 = line := by
  obtain ⟨r, hr⟩ := exists_lineContent_append line
  have hdrop : line.drop (lineContent line).length = r := by
    have h := congrArg (List.drop (lineContent line).length) hr
    rwa [List.drop_left] at h
  rw [indexLine, hdrop]
  exact hr.symm

lemma stripLast_cons {d c : Char} {s : Text} (h : s ≠ [] ∨ c ≠ d) :
    stripLast d (c :: s) = c :: stripLast d s := by
  cases s with
  | nil => simp [stripLast, h.resolve_left (by simp)]
  | cons x s => simp only [stripLast, List.getLast?_cons_cons]; split_ifs <;> rfl

/-- A character that ends no line is the first of its line's content. -/
lemma lineContent_cons {c : Char} {s : Text} (hlf : c ≠ '\n')
    (hcr : c = '\r' → s ≠ [] ∧ s ≠ ['\n']) : lineContent (c :: s) = c :: lineContent s := by
  have hstrip : stripLast '\n' s ≠ [] ∨ c ≠ '\r' := by
    by_cases hc : c = '\r'
    · left
      obtain ⟨hne, hnl⟩ := hcr hc
      obtain ⟨s, x, rfl⟩ := (List.eq_nil_or_concat s).resolve_left hne
      rw [List.concat_eq_append] at hnl ⊢
      rw [stripLast, List.getLast?_concat, List.dropLast_concat]
      split_ifs with hx
      · rintro rfl
        exact hnl (by simpa using hx)
      · simp
    · exact Or.inr hc
  rw [lineContent, stripLast_cons (Or.inr hlf), stripLast_cons hstrip, lineContent]

lemma indexLine_cons {c : Char} {s : Text} (hlf : c ≠ '\n')
    (hcr : c = '\r' → s ≠ [] ∧ s ≠ ['\n']) :
    indexLine (c :: s) = (c :: (indexLine s).1, (indexLine s).2) := by
  simp [indexLine, lineContent_cons hlf hcr]

/-- The first line of a text is empty only if the text is, and is a newline only if the text starts
with one. -/
lemma head_linesOf {text line : Text} {lines : List Text} (h : linesOf text = line :: lines)
    (hne : text ≠ []) (hnl : text.head? ≠ some '\n') : line ≠ [] ∧ line ≠ ['\n'] := by
  cases text with
  | nil => exact absurd rfl hne
  | cons c rest =>
      have hc : isNewline c = false := by
        rw [isNewline, beq_eq_false_iff_ne]
        rintro rfl
        exact hnl rfl
      obtain ⟨l, ls, -, hcons⟩ := splitLines_cons_of_not rest hc
      rw [linesOf, hcons, List.cons.injEq] at h
      rw [← h.1]
      refine ⟨by simp, fun heq => hnl ?_⟩
      rw [(List.cons.inj heq).1]
      rfl

/-- **The lines of the index are lines ended by `\n`, by `\r\n`, and by a `\r` at the end of the
text**; such a `\r` opens one more, empty line, which the index does not have. -/
theorem eolLines_finalCr (text : Text) :
    eolLines finalCr text
      = (linesOf text).map indexLine ++ if text.getLast? = some '\r' then [([], [])] else [] := by
  fun_induction eolLines finalCr text with
  | case1 => rfl
  | case2 rest ih =>
      have hlines : linesOf ('\r' :: '\n' :: rest) = ['\r', '\n'] :: linesOf rest := by
        simp [linesOf, splitLines, isNewline]
      have hlast : ('\r' :: '\n' :: rest).getLast? = some '\r' ↔ rest.getLast? = some '\r' := by
        cases rest <;> simp
      rw [ih, hlines]
      simp only [hlast]
      rfl
  | case3 c rest hnot hend ih =>
      rcases hend with rfl | ⟨rfl, hrest⟩
      · have hlines : linesOf ('\n' :: rest) = ['\n'] :: linesOf rest := by
          simp [linesOf, splitLines, isNewline]
        have hlast : ('\n' :: rest).getLast? = some '\r' ↔ rest.getLast? = some '\r' := by
          cases rest <;> simp
        rw [ih, hlines]
        simp only [hlast]
        rfl
      · obtain rfl : rest = [] := List.isEmpty_iff.mp hrest
        rfl
  | case4 c rest hnot hend hnil ih =>
      rw [hnil] at ih
      have hne := splitLines_ne_nil (p := isNewline) rest
      exact absurd (List.append_eq_nil_iff.mp ih.symm).1 (by simpa [linesOf] using hne)
  | case5 c rest hnot hend content terminator lines hcons ih =>
      push Not at hend
      have hnewline : isNewline c = false := by
        rw [isNewline, beq_eq_false_iff_ne]
        exact hend.1
      obtain ⟨l, ls, hrest, hlines⟩ := splitLines_cons_of_not rest hnewline
      -- the first line of the rest is neither empty nor a bare newline, or `c` is no `\r`
      have hcr : c = '\r' → l ≠ [] ∧ l ≠ ['\n'] := by
        rintro rfl
        have hne : rest ≠ [] := by
          rintro rfl
          exact hend.2 rfl rfl
        refine head_linesOf hrest hne fun hhead => ?_
        obtain ⟨rest', rfl⟩ := List.head?_eq_some_iff.mp hhead
        exact hnot rest' rfl rfl
      have hlast : (c :: rest).getLast? = some '\r' ↔ rest.getLast? = some '\r' := by
        cases rest with
        | nil =>
            have hc : c ≠ '\r' := fun hc => (hcr hc).1 (by
              rw [splitLines, List.cons.injEq] at hrest
              exact hrest.1.symm)
            simp [hc]
        | cons x rest => simp
      rw [linesOf] at ih ⊢
      rw [hcons, hrest, List.map_cons, List.cons_append, List.cons.injEq] at ih
      rw [hlines, List.map_cons, List.cons_append, indexLine_cons hend.1 hcr]
      simp only [hlast, ← ih.1, ← ih.2]

lemma flatten_map_indexLine (lines : List Text) :
    ((lines.map indexLine).map fun l => l.1 ++ l.2).flatten = lines.flatten := by
  rw [List.map_map]
  congr 1
  conv_rhs => rw [← List.map_id lines]
  exact List.map_congr_left fun line _ => indexLine_append line

/-- **The positions `offset_of` knows.** -/
theorem positionOffset_eq_eolOffset (text : Text) (p : Position) :
    positionOffset text p = eolOffset finalCr text p := by
  rw [positionOffset, offsetAt, eolOffset, eolLines_finalCr]
  by_cases hlt : p.line.toNat < (linesOf text).length
  · rw [List.getElem?_append_left (by simpa using hlt), List.getElem?_map,
      List.getElem?_eq_getElem hlt, Option.map_some,
      List.take_append_of_le_length (by simpa using hlt.le), ← List.map_take,
      flatten_map_indexLine]
    show _ = _ + Text.len (beforeColumn (lineContent _) _)
    rw [← columnOffset_eq]
  · have hlt := not_lt.mp hlt
    rw [List.getElem?_eq_none hlt, List.getElem?_append_right (by simpa using hlt)]
    split_ifs with hlast
    · -- the line a final `\r` opens, or one past it
      rcases Nat.lt_or_ge (p.line.toNat - ((linesOf text).map indexLine).length) 1 with hzero | hpos
      · have hidx : p.line.toNat = ((linesOf text).map indexLine).length := by
          rw [List.length_map] at hzero ⊢
          omega
        rw [hidx, Nat.sub_self, List.take_left, flatten_map_indexLine]
        show Text.len text = Text.len (linesOf text).flatten + 0
        rw [linesOf, flatten_splitLines]
        rfl
      · rw [List.getElem?_eq_none (by simpa using hpos)]
    · rfl

/-- A character of the content stays one for LSP, if a `\r` stands before a `\n` or at the end. -/
lemma not_lspEnds_of_not_finalEnds {c : Char} {rest : Text}
    (h : ∀ b, c :: rest = '\r' :: b → b = [] ∨ b.head? = some '\n')
    (hnot : ∀ rest', c = '\r' → rest = '\n' :: rest' → False)
    (hend : ¬(c = '\n' ∨ c = '\r' ∧ finalCr rest = true)) :
    ¬(c = '\n' ∨ c = '\r' ∧ lspLoneCr rest = true) := by
  rintro (hc | ⟨rfl, -⟩)
  · exact hend (Or.inl hc)
  · rcases h rest rfl with rfl | hhead
    · exact hend (Or.inr ⟨rfl, rfl⟩)
    · obtain ⟨rest', rfl⟩ := List.head?_eq_some_iff.mp hhead
      exact hnot rest' rfl rfl

/-- On a text in which every `\r` stands before a `\n` or ends it, the two kinds of lines agree. -/
theorem eolLines_lsp_eq {text : Text}
    (h : ∀ a b, text = a ++ '\r' :: b → b = [] ∨ b.head? = some '\n') :
    eolLines lspLoneCr text = eolLines finalCr text := by
  fun_induction eolLines finalCr text with
  | case1 => rfl
  | case2 rest ih =>
      rw [eolLines, ih fun a b hab => h ('\r' :: '\n' :: a) b (by simp [hab])]
  | case3 c rest hnot hend ih =>
      have hlsp : c = '\n' ∨ c = '\r' ∧ lspLoneCr rest = true := hend.imp_right fun h => ⟨h.1, rfl⟩
      rw [eolLines.eq_3 _ _ _ hnot, if_pos hlsp, ih fun a b hab => h (c :: a) b (by simp [hab])]
  | case4 c rest hnot hend hnil ih =>
      have hopen := not_lspEnds_of_not_finalEnds (h []) hnot hend
      rw [eolLines.eq_3 _ _ _ hnot, if_neg hopen, ih fun a b hab => h (c :: a) b (by simp [hab]),
        hnil]
  | case5 c rest hnot hend content terminator lines hcons ih =>
      have hopen := not_lspEnds_of_not_finalEnds (h []) hnot hend
      rw [eolLines.eq_3 _ _ _ hnot, if_neg hopen, ih fun a b hab => h (c :: a) b (by simp [hab]),
        hcons]

/-! ## On a document and on disk

Both ways to resolve a range agree with the lines of the text, and a lone carriage return sets them
apart from the specification. -/

lemma rangeText_eq_eolRange (text : Text) (range : Range) :
    rangeText text range = eolRange finalCr text range := by
  rw [rangeText, rangeOffsets, eolRange, positionOffset_eq_eolOffset, positionOffset_eq_eolOffset]

/-- What a range names in a file: nothing when it cannot be read as a text. -/
def fileRange {Path Time : Type} (call : DiskCall Path Time) : Text :=
  match call.fs.readToString call.path with
  | some text => eolRange finalCr text call.range
  | none => []

lemma wholeFileRead_eq_fileRange {Path Time : Type} (call : DiskCall Path Time) :
    wholeFileRead call.fs call.path call.range = .ok (fileRange call) := by
  rw [wholeFileRead, fileRange]
  cases call.fs.readToString call.path with
  | none => rfl
  | some text =>
      show (Document.new text).textInRange call.range = _
      rw [textInRange_new, rangeText_eq_eolRange]

section

variable (Url Path Time : Type) [DecidableEq Path] [DecidableEq Time]

/-- **One law for both sources.** An open document and a file on disk put a position in the lines
that end at `\n`, at `\r\n` and at a `\r` that ends the text; where no other `\r` is without its
`\n`, that is where LSP puts it. -/
theorem offsetOf_and_disk_eq_eol :
    (∀ text p, (Document.new text).offsetOf p = .ok (eolOffset finalCr text p)) ∧
    (∀ text range, (Document.new text).textInRange range = .ok (eolRange finalCr text range)) ∧
    (∀ calls : List (DiskCall Path Time), StampsIdentify (calls.map DiskCall.fs) →
      (DocumentStore.new : DocumentStore Url Path Time).diskReads calls
        = .ok (calls.map fileRange)) ∧
    ∀ text p, (∀ a b, text = a ++ '\r' :: b → b = [] ∨ b.head? = some '\n') →
      eolOffset finalCr text p = eolOffset lspLoneCr text p := by
  refine ⟨fun text p => ?_, fun text range => ?_, fun calls hid => ?_, fun text p htext => ?_⟩
  · rw [offsetOf_new, positionOffset_eq_eolOffset]
  · rw [textInRange_new, rangeText_eq_eolRange]
  · have hnew : Indexed (calls.map DiskCall.fs)
        (DocumentStore.new : DocumentStore Url Path Time) := by
      intro index hindex
      cases hindex
    obtain ⟨answers, hanswers, hwhole⟩ :=
      diskReads_spec hnew hid calls fun call hcall => List.mem_map_of_mem hcall
    have hall : calls.mapM (fun call => wholeFileRead call.fs call.path call.range)
        = .ok (calls.map fileRange) := by
      simp only [wholeFileRead_eq_fileRange]
      exact List.mapM_pure
    rw [hanswers, ← hwhole, hall]
  · rw [eolOffset, eolOffset, eolLines_lsp_eq htext]

end

/-- **A `\r` alone ends no line.** In `a\rb` the second line starts at the third byte; here there is
no second line. -/
theorem not_forall_offsetOf_lsp :
    ¬ ∀ text p, (Document.new text).offsetOf p = .ok (eolOffset lspLoneCr text p) := by
  intro h
  have hoffset := h ['a', '\r', 'b'] ⟨1, 0⟩
  exact absurd hoffset (by decide +kernel)

end Connect
