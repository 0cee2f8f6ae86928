import ClaudeCodeConnect.Core.RustStr

/-!
# `Content-Length` framing

`FrameReader` and `FrameWriter` of `lsp/framing.rs`, over the bytes still to be read.

* `readLine`, `readExact` -- what the reader uses of `std::io`.
* `readHeaders` -- the loop over header lines; it ends at a blank line or at the end of the input.
* `nextFrame` -- one frame into the body buffer, which is handed from call to call.
* `readFrames` -- calls of `next_frame` until one does not return `Ok(true)`.
* `readLine_line`, `readHeaders_line` -- what a line that is there in full does;
  `readHeaders_of_no_newline`, what one that is cut short does.
-/

namespace Connect

/-- `io::ErrorKind`, as far as the reader produces it. -/
inductive ErrorKind
  | invalidData
  | unexpectedEof
  deriving DecidableEq, Repr

/-- `io::Error`. -/
structure IoError where
  kind : ErrorKind
  message : String
  deriving DecidableEq, Repr

/-- `MAX_FRAME_BYTES`. -/
def maxFrameBytes : ℕ := 64 * 1024 * 1024

/-- `b'\n'`. -/
def lf : UInt8 := 10

/-! ## Reading bytes

`read_line` and `read_exact` on the bytes that are left. -/

/-- Up to and including the first newline, and the rest. -/
def takeLine (input : List UInt8) : List UInt8 × List UInt8 :=
  (input.takeWhile (· != lf) ++ (input.dropWhile (· != lf)).take 1,
    (input.dropWhile (· != lf)).drop 1)

/-- `BufRead::read_line` into an empty string: how many bytes it read, the string, and the rest. -/
def readLine (input : List UInt8) : Except IoError (ℕ × Text × List UInt8) :=
  match Text.fromUtf8 (takeLine input).1 with
  | some header => .ok ((takeLine input).1.length, header, (takeLine input).2)
  | none => .error ⟨.invalidData, "stream did not contain valid UTF-8"⟩

/-- `Read::read_exact`: the filled buffer and the rest. -/
def readExact (buf input : List UInt8) : Except IoError (List UInt8 × List UInt8) :=
  if buf.length ≤ input.length then .ok (input.take buf.length, input.drop buf.length)
  else .error ⟨.unexpectedEof, "failed to fill whole buffer"⟩

lemma takeLine_append (input : List UInt8) : (takeLine input).1 ++ (takeLine input).2 = input := by
  rw [takeLine, List.append_assoc, List.take_append_drop, List.takeWhile_append_dropWhile]

lemma readLine_length {input rest : List UInt8} {n : ℕ} {header : Text}
    (h : readLine input = .ok (n, header, rest)) : n + rest.length = input.length := by
  rw [readLine] at h
  split at h
  · cases h
    rw [← List.length_append, takeLine_append]
  · cases h

/-! ## Headers

Lines up to an empty one.  Only `Content-Length` is looked at, and the last value of several that
parses counts. -/

/-- `"content-length"`. -/
def contentLength : Text :=
  ['c', 'o', 'n', 't', 'e', 'n', 't', '-', 'l', 'e', 'n', 'g', 't', 'h']

/-- What a header line does to the length: only `Content-Length` sets it, and it is gone again if
its value does not parse. -/
def headerLen (len : Option ℕ) (line : Text) : Option ℕ :=
  match Text.splitOnce ':' line with
  | some (name, value) =>
      if Text.eqIgnoreAsciiCase name contentLength then
        Text.parseUnsigned UInt64.size (Text.trim value)
      else len
  | none => len

/-- The header loop: the length and what follows the blank line, or `none` where the input ended. -/
def readHeaders (len : Option ℕ) (input : List UInt8) :
    Except IoError (Option (Option ℕ × List UInt8)) :=
  match _hread : readLine input with
  | .error e => .error e
  | .ok (n, header, rest) =>
      if _hn : n = 0 then .ok none
      else
        let line := Text.trimEnd header
        if line = [] then .ok (some (len, rest))
        else readHeaders (headerLen len line) rest
  termination_by input.length
  decreasing_by
    have := readLine_length _hread
    omega

/-! ## Frames

`FrameReader::next_frame`, and the loop that calls it until it gives no more. -/

/-- `FrameReader::next_frame`: whether a frame was read, the body buffer, and the input left. -/
def nextFrame (body input : List UInt8) : Except IoError (Bool × List UInt8 × List UInt8) :=
  match readHeaders none input with
  | .error e => .error e
  | .ok none => .ok (false, body, [])
  | .ok (some (none, _)) => .error ⟨.invalidData, "frame header had no usable Content-Length"⟩
  | .ok (some (some len, rest)) =>
      if len > maxFrameBytes then
        .error ⟨.invalidData, s!"frame of {len} bytes is over the {maxFrameBytes} byte cap"⟩
      else
        -- `body.clear(); body.resize(len, 0)`
        let body := List.replicate len 0
        match readExact body rest with
        | .error e => .error e
        | .ok (body, rest) => .ok (true, body, rest)

/-- `FrameWriter::write_frame`: the bytes it writes. -/
def writeFrame (body : List UInt8) : List UInt8 :=
  Text.bytes (['C', 'o', 'n', 't', 'e', 'n', 't', '-', 'L', 'e', 'n', 'g', 't', 'h', ':', ' ']
    ++ Text.toDigits body.length ++ ['\r', '\n', '\r', '\n']) ++ body

lemma readHeaders_length {len len' : Option ℕ} {input rest : List UInt8}
    (h : readHeaders len input = .ok (some (len', rest))) : rest.length < input.length := by
  fun_induction readHeaders len input with
  | case1 => cases h
  | case2 => cases h
  | case3 len input n header rest' hread hn line hline =>
      cases h
      have := readLine_length hread
      omega
  | case4 len input n header rest' hread hn line hline ih =>
      have := readLine_length hread
      have := ih h
      omega

lemma nextFrame_length {buf body input rest : List UInt8}
    (h : nextFrame buf input = .ok (true, body, rest)) : rest.length < input.length := by
  rw [nextFrame] at h
  split at h
  · cases h
  · cases h
  · cases h
  · rename_i len rest' hheaders
    have hlt := readHeaders_length hheaders
    split_ifs at h
    simp only [readExact] at h
    split_ifs at h
    cases h
    rw [List.length_drop]
    omega

/-- Calls of `next_frame` with one buffer, until one returns `Ok(false)` or an error: the bodies of
those that returned `Ok(true)`, and how the last one ended. -/
def readFrames (body input : List UInt8) : List (List UInt8) × Except IoError Unit :=
  match _hframe : nextFrame body input with
  | .error e => ([], .error e)
  | .ok (false, _, _) => ([], .ok ())
  | .ok (true, body, rest) =>
      let (bodies, ending) := readFrames body rest
      (body :: bodies, ending)
  termination_by input.length
  decreasing_by exact nextFrame_length _hframe

lemma readFrames_error {buf input : List UInt8} {e : IoError} (h : nextFrame buf input = .error e) :
    readFrames buf input = ([], .error e) := by
  rw [readFrames]
  split <;> simp_all

lemma readFrames_ended {buf input b rest : List UInt8}
    (h : nextFrame buf input = .ok (false, b, rest)) : readFrames buf input = ([], .ok ()) := by
  rw [readFrames]
  split <;> simp_all

lemma readFrames_frame {buf input body rest : List UInt8}
    (h : nextFrame buf input = .ok (true, body, rest)) :
    readFrames buf input = (body :: (readFrames body rest).1, (readFrames body rest).2) := by
  rw [readFrames]
  split <;> simp_all

/-! ## Lines in full, and lines cut short

A line that was written reads back.  Where the input ends inside the headers, what is read is an
error, the end, or headers with no body after them. -/

lemma lf_mem_bytes_iff {s : Text} : lf ∈ Text.bytes s ↔ '\n' ∈ s :=
  Text.mem_bytes_ascii_iff Text.newline

lemma readLine_line {l : Text} (hl : '\n' ∉ l) (rest : List UInt8) :
    readLine (Text.bytes l ++ lf :: rest)
      = .ok ((Text.bytes l).length + 1, l ++ ['\n'], rest) := by
  have hall : ∀ b ∈ Text.bytes l, (b != lf) = true := by
    intro b hb
    rw [bne_iff_ne]
    rintro rfl
    exact hl (lf_mem_bytes_iff.mp hb)
  have hbytes : Text.bytes l ++ [lf] = Text.bytes (l ++ ['\n']) := by
    rw [Text.bytes_append]
    rfl
  have htake : takeLine (Text.bytes l ++ lf :: rest) = (Text.bytes (l ++ ['\n']), rest) := by
    rw [takeLine, List.takeWhile_append_of_pos hall, List.dropWhile_append_of_pos hall, ← hbytes]
    simp
  simp only [readLine, htake, Text.fromUtf8_bytes]
  rw [← hbytes, List.length_append, List.length_singleton]

lemma readLine_of_no_newline {input : List UInt8} (h : lf ∉ input) :
    readLine input = match Text.fromUtf8 input with
      | some header => .ok (input.length, header, [])
      | none => .error ⟨.invalidData, "stream did not contain valid UTF-8"⟩ := by
  have hall : ∀ b ∈ input, (b != lf) = true := by
    intro b hb
    rw [bne_iff_ne]
    rintro rfl
    exact h hb
  have htake : takeLine input = (input, []) := by
    rw [takeLine, List.takeWhile_eq_self_iff.mpr hall, List.dropWhile_eq_nil_iff.mpr hall]
    simp
  simp only [readLine, htake]

/-- A line that is there in full: it ends the headers if it is blank, and is one of them if not. -/
lemma readHeaders_line {l : Text} (hl : '\n' ∉ l) (len : Option ℕ) (rest : List UInt8) :
    readHeaders len (Text.bytes l ++ lf :: rest)
      = if Text.trimEnd l = [] then .ok (some (len, rest))
        else readHeaders (headerLen len (Text.trimEnd l)) rest := by
  have hread := readLine_line hl rest
  rw [readHeaders]
  split
  · rename_i e he
    rw [hread] at he
    cases he
  · rename_i n header rest' he
    rw [hread] at he
    cases he
    have htrim : Text.trimEnd (l ++ ['\n']) = Text.trimEnd l :=
      Text.trimEnd_append_singleton_of_isWhitespace (by decide)
    rw [dif_neg (Nat.succ_ne_zero _), htrim]

lemma readHeaders_nil (len : Option ℕ) : readHeaders len [] = .ok none := by
  have hread : readLine [] = .ok (0, [], []) := by
    have h := readLine_of_no_newline (List.not_mem_nil : lf ∉ [])
    have hnil : Text.fromUtf8 [] = some [] := Text.fromUtf8_bytes []
    rw [hnil] at h
    exact h
  rw [readHeaders]
  split
  · rename_i e he
    rw [hread] at he
    cases he
  · rename_i n header rest' he
    rw [hread] at he
    cases he
    rfl

/-- What reading headers comes to where the input ends inside them. -/
def CutShort (lens : Option ℕ → Prop) (r : Except IoError (Option (Option ℕ × List UInt8))) :
    Prop :=
  r = .ok none ∨ (∃ e, r = .error e) ∨ ∃ len, lens len ∧ r = .ok (some (len, []))

/-- A line that is cut short: the input ends after it, it is not UTF-8 any more, or what is left of
it is blank and passes for the end of the headers. -/
lemma readHeaders_of_no_newline {input : List UInt8} (h : lf ∉ input) (len : Option ℕ) :
    CutShort (· = len) (readHeaders len input) := by
  have hread := readLine_of_no_newline h
  rw [readHeaders]
  split
  · rename_i e he
    exact Or.inr (Or.inl ⟨e, rfl⟩)
  · rename_i n header rest he
    rw [hread] at he
    split at he
    · cases he
      by_cases hn : input.length = 0
      · exact Or.inl (by rw [dif_pos hn])
      · rw [dif_neg hn]
        by_cases hline : Text.trimEnd header = []
        · exact Or.inr (Or.inr ⟨len, rfl, if_pos hline⟩)
        · exact Or.inl ((if_neg hline).trans (readHeaders_nil _))
    · cases he

end Connect
