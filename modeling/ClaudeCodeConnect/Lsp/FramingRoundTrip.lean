import ClaudeCodeConnect.Lsp.Framing

/-!
# What is written is what is read

A stream of frames is what `write_frame` emits for each, with further header lines around the
`Content-Length` line and that name in any letter case.  Reading it gives back the bodies; reading
any beginning of it gives back the first of them and nothing else.

* `Frame` -- a body and the header it travels under; an invalid one cannot be built.
* `lenAfter_lines` -- the header lines of a frame leave its length.
* `nextFrame_wire`, `nextFrame_cut` -- one frame, in full and cut short anywhere.
* `frames_round_trip` -- a stream, in full and cut short anywhere.
-/

namespace Connect

/-! ## Frames on the wire

All the ways to frame a body that the reader accepts: other headers before and after, any letter
case. -/

/-- A header line other than `Content-Length`: not blank, and without a newline. -/
structure ExtraHeader where
  line : Text
  no_newline : '\n' ∉ line
  not_blank : Text.trimEnd line ≠ []
  name_ne : ∀ name value, Text.splitOnce ':' line = some (name, value) →
    Text.eqIgnoreAsciiCase name contentLength = false

/-- A body, and the header it travels under. -/
structure Frame where
  before : List ExtraHeader
  /-- `Content-Length`, in some letter case. -/
  name : Text
  after : List ExtraHeader
  body : List UInt8
  name_eq : Text.eqIgnoreAsciiCase name contentLength = true
  body_le : body.length ≤ maxFrameBytes

namespace Frame

/-- The header that counts, in the spelling of the frame. -/
def lengthLine (f : Frame) : Text :=
  f.name ++ ':' :: ' ' :: Text.toDigits f.body.length ++ ['\r']

/-- The header lines, in order. -/
def lines (f : Frame) : List Text :=
  f.before.map ExtraHeader.line ++ f.lengthLine :: f.after.map ExtraHeader.line

/-- Header lines, each with its newline. -/
def encodeLines (lines : List Text) : List UInt8 := lines.flatMap fun l => Text.bytes l ++ [lf]

/-- The bytes of the header, with the empty line that ends it. -/
def header (f : Frame) : List UInt8 := encodeLines f.lines ++ (Text.bytes ['\r'] ++ [lf])

/-- The bytes of the frame. -/
def wire (f : Frame) : List UInt8 := f.header ++ f.body

/-- The frame `write_frame` emits. -/
def plain (body : List UInt8) (h : body.length ≤ maxFrameBytes) : Frame where
  before := []
  name := ['C', 'o', 'n', 't', 'e', 'n', 't', '-', 'L', 'e', 'n', 'g', 't', 'h']
  after := []
  body := body
  name_eq := by decide
  body_le := h

theorem wire_plain (body : List UInt8) (h : body.length ≤ maxFrameBytes) :
    (plain body h).wire = writeFrame body := by
  have hlf : [lf] = Text.bytes ['\n'] := rfl
  simp only [wire, header, lines, encodeLines, lengthLine, plain, writeFrame, List.map_nil,
    List.nil_append, List.flatMap_cons, List.flatMap_nil, List.append_nil, hlf,
    ← Text.bytes_append, List.append_assoc, List.cons_append]

end Frame

/-! ## The lines of a frame

Each header line is read as what it is, and none is taken for the empty one. -/

lemma toAsciiLowercase_mem {name : Text} (h : Text.eqIgnoreAsciiCase name contentLength = true)
    {c : Char} (hc : c ∈ name) :
    Text.toAsciiLowercase c ∈ contentLength.map Text.toAsciiLowercase := by
  rw [Text.eqIgnoreAsciiCase, beq_iff_eq] at h
  rw [← h]
  exact List.mem_map_of_mem hc

namespace Frame

lemma not_mem_name (f : Frame) {c : Char}
    (hc : Text.toAsciiLowercase c ∉ contentLength.map Text.toAsciiLowercase) : c ∉ f.name :=
  fun h => hc (toAsciiLowercase_mem f.name_eq h)

lemma trimEnd_lengthLine (f : Frame) :
    Text.trimEnd f.lengthLine = f.name ++ ':' :: ' ' :: Text.toDigits f.body.length := by
  have hne := Text.toDigits_ne_nil f.body.length
  obtain ⟨s, c, hs⟩ := (List.eq_nil_or_concat (Text.toDigits f.body.length)).resolve_left hne
  rw [List.concat_eq_append] at hs
  have hc : Text.isWhitespace c = false :=
    Text.not_isWhitespace_of_isDigit
      (Text.isDigit_of_mem_toDigits (n := f.body.length) (by rw [hs]; simp))
  have hsplit : f.name ++ ':' :: ' ' :: Text.toDigits f.body.length
      = (f.name ++ ':' :: ' ' :: s) ++ [c] := by simp [hs]
  rw [lengthLine, Text.trimEnd_append_singleton_of_isWhitespace (by decide), hsplit,
    Text.trimEnd_of_not hc]

/-- The `Content-Length` line sets the length. -/
lemma headerLen_lengthLine (f : Frame) (len : Option ℕ) :
    headerLen len (Text.trimEnd f.lengthLine) = some f.body.length := by
  have hcolon : ':' ∉ f.name := f.not_mem_name (by decide)
  have hvalue : Text.trim (' ' :: Text.toDigits f.body.length) = Text.toDigits f.body.length :=
    Text.trim_of_digits (Text.toDigits_ne_nil _) fun c hc => Text.isDigit_of_mem_toDigits hc
  have hlt : f.body.length < UInt64.size := Nat.lt_of_le_of_lt f.body_le (by decide)
  rw [trimEnd_lengthLine, headerLen, Text.splitOnce_append hcolon]
  simp only [f.name_eq, if_true, hvalue, Text.parseUnsigned_toDigits hlt]

/-- Any other line leaves it. -/
lemma headerLen_extra (h : ExtraHeader) (len : Option ℕ) :
    headerLen len (Text.trimEnd h.line) = len := by
  rw [headerLen]
  split
  · rename_i name value hsplit
    obtain ⟨hline, hcolon⟩ := Text.splitOnce_eq_some hsplit
    obtain ⟨r, hr, -⟩ := Text.exists_trimEnd_append h.line
    have hwhole : Text.splitOnce ':' h.line = some (name, value ++ r) := by
      rw [hr, hline, List.append_assoc, List.cons_append]
      exact Text.splitOnce_append hcolon _
    rw [h.name_ne name _ hwhole]
    rfl
  · rfl

/-- What the loop has for a length after some of the lines. -/
def lenAfter (len : Option ℕ) (lines : List Text) : Option ℕ :=
  lines.foldl (fun len l => headerLen len (Text.trimEnd l)) len

lemma lenAfter_extras (hs : List ExtraHeader) (len : Option ℕ) :
    lenAfter len (hs.map ExtraHeader.line) = len := by
  induction hs generalizing len with
  | nil => rfl
  | cons h hs ih =>
      rw [List.map_cons, lenAfter, List.foldl_cons, headerLen_extra]
      exact ih len

/-- **The lines of a frame leave its length.** -/
lemma lenAfter_lines (f : Frame) : lenAfter none f.lines = some f.body.length := by
  have hbefore := lenAfter_extras f.before none
  rw [lenAfter] at hbefore
  rw [lines, lenAfter, List.foldl_append, hbefore, List.foldl_cons, headerLen_lengthLine]
  exact lenAfter_extras f.after _

lemma mem_lines {f : Frame} {l : Text} (h : l ∈ f.lines) :
    l = f.lengthLine ∨ ∃ e : ExtraHeader, l = e.line := by
  rcases List.mem_append.mp h with h | h
  · obtain ⟨e, -, rfl⟩ := List.mem_map.mp h
    exact Or.inr ⟨e, rfl⟩
  · rcases List.mem_cons.mp h with rfl | h
    · exact Or.inl rfl
    · obtain ⟨e, -, rfl⟩ := List.mem_map.mp h
      exact Or.inr ⟨e, rfl⟩

/-- After any part of the lines there is no length, or it is the frame's. -/
lemma lenAfter_part (f : Frame) {part : List Text} (h : ∀ l ∈ part, l ∈ f.lines)
    {len : Option ℕ} (hlen : len = none ∨ len = some f.body.length) :
    lenAfter len part = none ∨ lenAfter len part = some f.body.length := by
  induction part generalizing len with
  | nil => exact hlen
  | cons l part ih =>
      refine ih (fun l hl => h l (List.mem_cons_of_mem _ hl)) ?_
      rcases mem_lines (h l List.mem_cons_self) with rfl | ⟨e, rfl⟩
      · exact Or.inr (headerLen_lengthLine f len)
      · simp only [headerLen_extra]
        exact hlen

lemma lines_ok (f : Frame) {l : Text} (h : l ∈ f.lines) : '\n' ∉ l ∧ Text.trimEnd l ≠ [] := by
  rcases mem_lines h with rfl | ⟨e, rfl⟩
  · constructor
    · have hname : '\n' ∉ f.name := f.not_mem_name (by decide)
      have hdigits : '\n' ∉ Text.toDigits f.body.length := fun hmem =>
        absurd (Text.isDigit_of_mem_toDigits hmem) (by decide)
      simp [lengthLine, hname, hdigits]
    · rw [trimEnd_lengthLine]
      simp
  · exact ⟨e.no_newline, e.not_blank⟩

end Frame

/-! ## Reading the header

The lines of a frame leave the length of its body; cut anywhere, they leave none. -/

/-- Header lines that are there in full. -/
lemma readHeaders_lines {lines : List Text} (h : ∀ l ∈ lines, '\n' ∉ l ∧ Text.trimEnd l ≠ [])
    (len : Option ℕ) (rest : List UInt8) :
    readHeaders len (Frame.encodeLines lines ++ (Text.bytes ['\r'] ++ lf :: rest))
      = .ok (some (Frame.lenAfter len lines, rest)) := by
  induction lines generalizing len with
  | nil =>
      have hline := readHeaders_line (l := ['\r']) (by decide) len rest
      rwa [if_pos (by decide)] at hline
  | cons l lines ih =>
      obtain ⟨hnewline, hblank⟩ := h l List.mem_cons_self
      have ih := ih (fun l hl => h l (List.mem_cons_of_mem _ hl)) (headerLen len (Text.trimEnd l))
      rw [Frame.encodeLines, List.flatMap_cons, List.append_assoc, List.append_assoc,
        List.singleton_append, readHeaders_line hnewline, if_neg hblank]
      exact ih

/-- A beginning of some bytes without a newline. -/
lemma not_mem_take {bs rest : List UInt8} {k : ℕ} (h : lf ∉ bs) (hk : k ≤ bs.length) :
    lf ∉ (bs ++ rest).take k := by
  rw [List.take_append_of_le_length hk]
  exact fun hmem => h (List.mem_of_mem_take hmem)

/-- Header lines that are cut short, anywhere before the blank line has ended. -/
lemma readHeaders_cut {lines : List Text} (h : ∀ l ∈ lines, '\n' ∉ l ∧ Text.trimEnd l ≠ [])
    (len : Option ℕ) {k : ℕ}
    (hk : k < (Frame.encodeLines lines ++ (Text.bytes ['\r'] ++ [lf])).length) :
    CutShort (fun len' => ∃ j, len' = Frame.lenAfter len (lines.take j))
      (readHeaders len ((Frame.encodeLines lines ++ (Text.bytes ['\r'] ++ [lf])).take k)) := by
  induction lines generalizing len k with
  | nil =>
      have hnewline : lf ∉ ((Text.bytes ['\r'] ++ [lf]).take k) :=
        by
        refine not_mem_take (by decide) ?_
        simp only [Frame.encodeLines, List.flatMap_nil, List.nil_append, List.length_append,
          List.length_singleton] at hk
        omega
      rcases readHeaders_of_no_newline hnewline len with hcut | hcut | ⟨len', rfl, hcut⟩
      · exact Or.inl hcut
      · exact Or.inr (Or.inl hcut)
      · exact Or.inr (Or.inr ⟨_, ⟨0, rfl⟩, hcut⟩)
  | cons l lines ih =>
      obtain ⟨hnewline, hblank⟩ := h l List.mem_cons_self
      set rest := Frame.encodeLines lines ++ (Text.bytes ['\r'] ++ [lf]) with hrest
      have hwhole : Frame.encodeLines (l :: lines) ++ (Text.bytes ['\r'] ++ [lf])
          = Text.bytes l ++ lf :: rest := by
        simp [Frame.encodeLines, hrest]
      rw [hwhole] at hk ⊢
      have hbytes : lf ∉ Text.bytes l := fun hmem => hnewline (lf_mem_bytes_iff.mp hmem)
      by_cases hline : k ≤ (Text.bytes l).length
      -- the cut falls inside this line
      · rcases readHeaders_of_no_newline (not_mem_take hbytes hline) len with
          hcut | hcut | ⟨len', rfl, hcut⟩
        · exact Or.inl hcut
        · exact Or.inr (Or.inl hcut)
        · exact Or.inr (Or.inr ⟨_, ⟨0, rfl⟩, hcut⟩)
      -- it falls behind it
      · obtain ⟨k', rfl⟩ := Nat.exists_eq_add_of_lt (Nat.lt_of_not_le hline)
        have htake : (Text.bytes l ++ lf :: rest).take ((Text.bytes l).length + k' + 1)
            = Text.bytes l ++ lf :: rest.take k' := by
          rw [Nat.add_assoc, List.take_length_add_append, List.take_succ_cons]
        rw [htake, readHeaders_line hnewline, if_neg hblank]
        have hk' : k' < rest.length := by
          simp only [List.length_append, List.length_cons] at hk
          omega
        rcases ih (fun l hl => h l (List.mem_cons_of_mem _ hl)) (headerLen len (Text.trimEnd l)) hk'
          with hcut | hcut | ⟨len', ⟨j, rfl⟩, hcut⟩
        · exact Or.inl hcut
        · exact Or.inr (Or.inl hcut)
        · exact Or.inr (Or.inr ⟨_, ⟨j + 1, rfl⟩, hcut⟩)

/-! ## One frame

A whole frame is read and what follows it is left; a cut one is not taken for a frame. -/

lemma readExact_of_le (n : ℕ) {input : List UInt8} (h : n ≤ input.length) :
    readExact (List.replicate n 0) input = .ok (input.take n, input.drop n) := by
  rw [readExact, List.length_replicate, if_pos h]

lemma readExact_of_lt (n : ℕ) (input : List UInt8) (h : input.length < n) :
    ∃ e, readExact (List.replicate n 0) input = .error e := by
  rw [readExact, List.length_replicate, if_neg (by omega)]
  exact ⟨_, rfl⟩

/-- What `next_frame` does once the header is read. -/
lemma nextFrame_of_headers {buf input rest : List UInt8} {n : ℕ} (hn : n ≤ maxFrameBytes)
    (h : readHeaders none input = .ok (some (some n, rest))) :
    nextFrame buf input = match readExact (List.replicate n 0) rest with
      | .error e => .error e
      | .ok (body, rest) => .ok (true, body, rest) := by
  rw [nextFrame, h]
  exact if_neg (Nat.not_lt_of_le hn)

/-- **One frame in full.** -/
theorem nextFrame_wire (f : Frame) (buf rest : List UInt8) :
    nextFrame buf (f.wire ++ rest) = .ok (true, f.body, rest) := by
  have hheaders := readHeaders_lines (fun l hl => f.lines_ok hl) none (f.body ++ rest)
  rw [f.lenAfter_lines] at hheaders
  have hwire : f.wire ++ rest
      = Frame.encodeLines f.lines ++ (Text.bytes ['\r'] ++ lf :: (f.body ++ rest)) := by
    simp [Frame.wire, Frame.header]
  rw [hwire, nextFrame_of_headers f.body_le hheaders, readExact_of_le _ (by simp)]
  simp

/-- **One frame cut short.**  No frame is read, unless its body is empty and the cut is in the blank
line; then the empty body is read, and the input is at its end. -/
theorem nextFrame_cut (f : Frame) (buf : List UInt8) {k : ℕ} (hk : k < f.wire.length) :
    (∃ body rest, nextFrame buf (f.wire.take k) = .ok (false, body, rest)) ∨
    (∃ e, nextFrame buf (f.wire.take k) = .error e) ∨
    (f.body = [] ∧ nextFrame buf (f.wire.take k) = .ok (true, [], [])) := by
  by_cases hheader : k < f.header.length
  · have htake : f.wire.take k = f.header.take k := by
      rw [Frame.wire, List.take_append_of_le_length (Nat.le_of_lt hheader)]
    rw [htake]
    rcases readHeaders_cut (fun l hl => f.lines_ok hl) none hheader with
      hcut | ⟨e, hcut⟩ | ⟨len, ⟨j, rfl⟩, hcut⟩
    · exact Or.inl ⟨buf, [], by rw [nextFrame, Frame.header, hcut]⟩
    · exact Or.inr (Or.inl ⟨e, by rw [nextFrame, Frame.header, hcut]⟩)
    · rcases f.lenAfter_part (fun l hl => List.mem_of_mem_take hl) (Or.inl rfl) with hlen | hlen
      · rw [hlen] at hcut
        exact Or.inr (Or.inl ⟨_, by rw [nextFrame, Frame.header, hcut]⟩)
      · rw [hlen] at hcut
        rw [Frame.header, nextFrame_of_headers f.body_le hcut]
        rcases Nat.eq_zero_or_pos f.body.length with hzero | hpos
        · refine Or.inr (Or.inr ⟨List.eq_nil_of_length_eq_zero hzero, ?_⟩)
          rw [hzero]
          rfl
        · obtain ⟨e, he⟩ := readExact_of_lt f.body.length [] (by simpa using hpos)
          exact Or.inr (Or.inl ⟨e, by rw [he]⟩)
  -- the header is there, and the body is cut
  · obtain ⟨m, rfl⟩ := Nat.exists_eq_add_of_le (Nat.le_of_not_lt hheader)
    have hm : m < f.body.length := by
      rw [Frame.wire, List.length_append] at hk
      omega
    have hheaders := readHeaders_lines (fun l hl => f.lines_ok hl) none (f.body.take m)
    rw [f.lenAfter_lines] at hheaders
    have htake : f.wire.take (f.header.length + m)
        = Frame.encodeLines f.lines ++ (Text.bytes ['\r'] ++ lf :: f.body.take m) := by
      rw [Frame.wire, List.take_length_add_append]
      simp [Frame.header]
    obtain ⟨e, he⟩ := readExact_of_lt f.body.length (f.body.take m) (by
      rw [List.length_take]
      omega)
    refine Or.inr (Or.inl ⟨e, ?_⟩)
    rw [htake, nextFrame_of_headers f.body_le hheaders, he]

/-! ## Streams of frames

By induction on the frames; the last may be cut anywhere. -/

lemma readFrames_nil (buf : List UInt8) : readFrames buf [] = ([], .ok ()) := by
  have hnext : nextFrame buf [] = .ok (false, buf, []) := by rw [nextFrame, readHeaders_nil]
  exact readFrames_ended hnext

lemma readFrames_wire (f : Frame) (buf rest : List UInt8) :
    readFrames buf (f.wire ++ rest)
      = (f.body :: (readFrames f.body rest).1, (readFrames f.body rest).2) :=
  readFrames_frame (nextFrame_wire f buf rest)

lemma readFrames_cut (f : Frame) (buf : List UInt8) {k : ℕ} (hk : k < f.wire.length) :
    (readFrames buf (f.wire.take k)).1 <+: [f.body] := by
  rcases nextFrame_cut f buf hk with ⟨body', rest', hcut⟩ | ⟨e, hcut⟩ | ⟨hnil, hcut⟩
  · rw [readFrames_ended hcut]
    exact List.nil_prefix
  · rw [readFrames_error hcut]
    exact List.nil_prefix
  · rw [readFrames_frame hcut]
    simp only [readFrames_nil, hnil]
    exact List.prefix_rfl

/-- **Framing round trip.**  Whatever the body buffer held, reading a stream of frames gives their
bodies in order and then the end of the input, and reading any beginning of the stream gives the
first of these bodies, before it ends in the end of the input or an error.  A stream without further
headers is what `write_frame` emits. -/
theorem frames_round_trip (frames : List Frame) (buf : List UInt8) :
    readFrames buf (frames.flatMap Frame.wire) = (frames.map Frame.body, .ok ()) ∧
    (∀ k, (readFrames buf ((frames.flatMap Frame.wire).take k)).1 <+: frames.map Frame.body) ∧
    ∀ body (h : body.length ≤ maxFrameBytes), (Frame.plain body h).wire = writeFrame body := by
  refine ⟨?_, ?_, Frame.wire_plain⟩
  · induction frames generalizing buf with
    | nil => exact readFrames_nil buf
    | cons f frames ih => rw [List.flatMap_cons, readFrames_wire, ih f.body, List.map_cons]
  · induction frames generalizing buf with
    | nil =>
        intro k
        rw [List.flatMap_nil, List.take_nil, readFrames_nil]
        exact List.nil_prefix
    | cons f frames ih =>
        intro k
        rw [List.flatMap_cons, List.map_cons]
        by_cases hk : k < f.wire.length
        · rw [List.take_append_of_le_length (Nat.le_of_lt hk)]
          exact (readFrames_cut f buf hk).trans ⟨frames.map Frame.body, rfl⟩
        · obtain ⟨k', rfl⟩ := Nat.exists_eq_add_of_le (Nat.le_of_not_lt hk)
          rw [List.take_length_add_append, readFrames_wire]
          exact (List.prefix_cons_inj _).mpr (ih f.body k')

end Connect
