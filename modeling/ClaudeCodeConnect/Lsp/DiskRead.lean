import ClaudeCodeConnect.Lsp.DocumentStore

/-!
# A windowed read answers what the whole file answers

`DiskIndex::read_range` reads only the lines a range names and resolves the range, rebased to
line 0, inside that window.  `text_from_disk` decides by the file's stamp whether it may do so.

* `offsetAt_drop`, `offsetAt_take` -- a position keeps its offset when the lines before it, or the
  lines after its own, are cut away.
* `exists_window` -- the window of a range is a part of the text, and both positions of the range
  have the same place in it as in the whole; a range whose end is lines before its start is empty in
  both.
* `readRange_eq` -- **warm is cold**, for every text and every range.
* `Indexed`, `textFromDisk_spec` -- what the cached index stands for between calls, and one call.
* `diskReads_eq_wholeFileReads` -- any sequence of calls, the files changing in between: each
  answers what reading the whole file at that moment would.
-/

namespace Connect

/-! ## Positions in a part of a text

A position in some lines of a text is one in the text, counted from the first of those lines. -/

lemma lineStart_le_offsetAt {text : Text} {i : ℕ} (hi : i < (linesOf text).length) (c : ℕ) :
    Text.len ((linesOf text).take i).flatten ≤ offsetAt text i c := by
  rw [offsetAt, List.getElem?_eq_getElem hi]
  exact Nat.le_add_right _ _

lemma offsetAt_le_lineEnd {text : Text} {i : ℕ} (hi : i < (linesOf text).length) (c : ℕ) :
    offsetAt text i c ≤ Text.len ((linesOf text).take (i + 1)).flatten := by
  rw [offsetAt, List.getElem?_eq_getElem hi, List.take_succ_eq_append_getElem hi]
  have hcolumn := (boundary_columnOffset (linesOf text)[i] c).le
  obtain ⟨r, hr⟩ := exists_lineContent_append (linesOf text)[i]
  have hlen := congrArg Text.len hr
  rw [Text.len_append] at hlen
  simp only [List.flatten_append, List.flatten_singleton, Text.len_append]
  have : weight Char.utf8Size (lineContent (linesOf text)[i])
      = Text.len (lineContent (linesOf text)[i]) := rfl
  omega

lemma len_take_mono (lines : List Text) {i j : ℕ} (h : i ≤ j) :
    Text.len (lines.take i).flatten ≤ Text.len (lines.take j).flatten := by
  obtain ⟨k, rfl⟩ := Nat.exists_eq_add_of_le h
  rw [List.take_add, List.flatten_append, Text.len_append]
  exact Nat.le_add_right _ _

/-- Positions on the lines from `i` on, in the text those lines make. -/
lemma offsetAt_drop {text : Text} {i : ℕ} (hi : i < (linesOf text).length) (k c : ℕ) :
    offsetAt text (i + k) c
      = Text.len ((linesOf text).take i).flatten
        + offsetAt ((linesOf text).drop i).flatten k c := by
  have hlines : linesOf ((linesOf text).drop i).flatten = (linesOf text).drop i :=
    splitLines_drop text hi
  rw [offsetAt, offsetAt, hlines, List.getElem?_drop]
  cases (linesOf text)[i + k]? with
  | none =>
      have htext : text = ((linesOf text).take i).flatten ++ ((linesOf text).drop i).flatten := by
        rw [← List.flatten_append, List.take_append_drop]
        exact (flatten_splitLines text).symm
      have hlen := congrArg Text.len htext
      rwa [Text.len_append] at hlen
  | some line =>
      simp only [List.take_add, List.flatten_append, Text.len_append, Nat.add_assoc]

/-- Positions on the lines before `j`, in the text those lines make. -/
lemma offsetAt_take {text : Text} {j k : ℕ} (hj : j < (linesOf text).length) (hk : k < j) (c : ℕ) :
    offsetAt ((linesOf text).take j).flatten k c = offsetAt text k c := by
  have hlines : linesOf ((linesOf text).take j).flatten = (linesOf text).take j ++ [[]] :=
    splitLines_take text hj
  have hlen : ((linesOf text).take j).length = j := by
    rw [List.length_take, Nat.min_eq_left (Nat.le_of_lt hj)]
  rw [offsetAt, offsetAt, hlines, List.getElem?_append_left (by omega),
    List.getElem?_take_of_lt hk, List.take_append_of_le_length (by omega), List.take_take,
    Nat.min_eq_left (Nat.le_of_lt hk), List.getElem?_eq_getElem (by omega)]

/-! ## The window of a range

The lines a range touches are read, and the range is rebased onto them; it delimits the same text
there. -/

/-- The index `text_from_disk` keeps of a file with this text. -/
def DiskIndex.ofText {Path Time : Type} (path : Path) (stamp : FileStamp Time) (text : Text) :
    DiskIndex Path Time :=
  ⟨path, stamp, computeLineStarts text, Text.len text⟩

/-- What a part of a text must meet for a range to name the same in it as in the whole. -/
structure IsWindow (text : Text) (range : Range) (before part after : Text) : Prop where
  text_eq : text = before ++ part ++ after
  /-- Both positions are inside the part, or the range is empty in the whole and in the part. -/
  positions :
    (positionOffset text range.start
        = Text.len before + positionOffset part (DiskIndex.rebase range).start ∧
      positionOffset text range.stop
        = Text.len before + positionOffset part (DiskIndex.rebase range).stop) ∨
    (positionOffset text range.stop ≤ positionOffset text range.start ∧ part = [])

/-- A range whose end does not lie after its start names nothing. -/
lemma rangeText_of_le {text : Text} {range : Range}
    (h : positionOffset text range.stop ≤ positionOffset text range.start) :
    rangeText text range = [] := by
  have hslice : slice? Char.utf8Size text (positionOffset text range.start)
      (positionOffset text range.start) = some [] := by
    obtain ⟨a, b, rfl, ha⟩ := (boundary_rangeOffsets text range).1
    exact (slice?_eq_some_iff Text.utf8Size_pos).mpr ⟨a, b, by simp, ha, rfl⟩
  rw [rangeText, rangeOffsets, Nat.max_eq_right h, hslice, Option.getD_some]

lemma IsWindow.rangeText_eq {text before part after : Text} {range : Range}
    (h : IsWindow text range before part after) :
    rangeText text range = rangeText part (DiskIndex.rebase range) := by
  rcases h.positions with ⟨hstart, hstop⟩ | ⟨hle, rfl⟩
  · obtain ⟨hs, he, hle⟩ := boundary_rangeOffsets part (DiskIndex.rebase range)
    have hshift := slice?_shift Text.utf8Size_pos (a := before) (b := after) hs he hle
    rw [rangeText, rangeText, ← hshift, ← h.text_eq]
    simp only [rangeOffsets, hstart, hstop, Nat.add_max_add_left]
    rfl
  · have hnil : ∀ p, positionOffset [] p = 0 := fun p => by
      have := (boundary_offsetAt [] p.line.toNat p.character.toNat).le
      simpa [positionOffset] using this
    rw [rangeText_of_le hle, rangeText_of_le (by simp [hnil])]

lemma toNat_rebase_stop_line (range : Range) :
    (DiskIndex.rebase range).stop.line.toNat = range.stop.line.toNat - range.start.line.toNat := by
  have hlt := range.stop.line.toNat_lt
  simp only [DiskIndex.rebase, UInt32.toNat_ofNat']
  exact Nat.mod_eq_of_lt (by omega)

/-- **The window.**  It exists exactly when the first line does, its ends are boundaries of the
text, and what lies between them is a part in which the rebased range names the same. -/
theorem exists_window {Path Time : Type} (path : Path) (stamp : FileStamp Time) (text : Text)
    (range : Range) :
    ((DiskIndex.ofText path stamp text).window range = none ∧ rangeText text range = []) ∨
      ∃ before part after, IsWindow text range before part after ∧
        (DiskIndex.ofText path stamp text).window range
          = some (Text.len before, Text.len before + Text.len part) := by
  set first := range.start.line.toNat
  set last := range.stop.line.toNat
  simp only [DiskIndex.window, DiskIndex.ofText]
  by_cases hfirst : first < (linesOf text).length
  · right
    rw [getElem?_computeLineStarts hfirst, Option.map_some]
    have htext : text = ((linesOf text).take first).flatten
        ++ ((linesOf text).drop first).flatten := by
      rw [← List.flatten_append, List.take_append_drop]
      exact (flatten_splitLines text).symm
    by_cases hinv : last < first
    -- an inverted range: the window is empty, and the end lies on an earlier line than the start
    · have hlast : last + 1 < (linesOf text).length := by omega
      refine ⟨((linesOf text).take first).flatten, [], ((linesOf text).drop first).flatten,
        ⟨by simpa using htext, Or.inr ⟨?_, rfl⟩⟩, ?_⟩
      · calc positionOffset text range.stop
            ≤ Text.len ((linesOf text).take (last + 1)).flatten :=
              offsetAt_le_lineEnd (by omega) _
          _ ≤ Text.len ((linesOf text).take first).flatten := len_take_mono _ hinv
          _ ≤ positionOffset text range.start := lineStart_le_offsetAt hfirst _
      · rw [getElem?_computeLineStarts hlast, Option.getD_some,
          Nat.max_eq_right (len_take_mono _ hinv)]
        rfl
    · obtain ⟨k, hk⟩ := Nat.exists_eq_add_of_le (Nat.le_of_not_lt hinv)
      have hrebase : (DiskIndex.rebase range).stop.line.toNat = k := by
        rw [toNat_rebase_stop_line]
        omega
      have hstart := offsetAt_drop hfirst 0 range.start.character.toNat
      have hstop := offsetAt_drop hfirst k range.stop.character.toNat
      rw [Nat.add_zero] at hstart
      rw [← hk] at hstop
      set rest := ((linesOf text).drop first).flatten
      have hlines : linesOf rest = (linesOf text).drop first := splitLines_drop text hfirst
      by_cases hlast : last + 1 < (linesOf text).length
      -- the window stops short of the end: it ends in a terminator, and so has one line more
      · have hj : k + 1 < (linesOf rest).length := by
          rw [hlines, List.length_drop]
          omega
        set part := ((linesOf rest).take (k + 1)).flatten with hpart
        have hrest : rest = part ++ ((linesOf rest).drop (k + 1)).flatten := by
          rw [hpart, ← List.flatten_append, List.take_append_drop]
          exact (flatten_splitLines rest).symm
        have hend : Text.len ((linesOf text).take (last + 1)).flatten
            = Text.len ((linesOf text).take first).flatten + Text.len part := by
          rw [hk, Nat.add_assoc, List.take_add, List.flatten_append, Text.len_append, hpart, hlines]
        refine ⟨((linesOf text).take first).flatten, part,
          ((linesOf rest).drop (k + 1)).flatten, ⟨?_, Or.inl ⟨?_, ?_⟩⟩, ?_⟩
        · rw [List.append_assoc, ← hrest]
          exact htext
        · rw [positionOffset, positionOffset]
          exact hstart.trans (by rw [← offsetAt_take hj (Nat.succ_pos k)]; rfl)
        · rw [positionOffset, positionOffset, hrebase]
          exact hstop.trans (by rw [← offsetAt_take hj (Nat.lt_succ_self k)]; rfl)
        · rw [getElem?_computeLineStarts hlast, Option.getD_some, hend,
            Nat.max_eq_left (Nat.le_add_right _ _)]
      -- the last line named is the last there is, or past it: the window runs to the end
      · have hnone : (computeLineStarts text)[last + 1]? = none := by
          rw [List.getElem?_eq_none_iff, length_computeLineStarts]
          omega
        have hlen := congrArg Text.len htext
        rw [Text.len_append] at hlen
        refine ⟨((linesOf text).take first).flatten, rest, [], ⟨by simpa using htext,
          Or.inl ⟨hstart, ?_⟩⟩, ?_⟩
        · rw [positionOffset, positionOffset, hrebase]
          exact hstop
        · rw [hnone, Option.getD_none, hlen, Nat.max_eq_left (Nat.le_add_right _ _)]
  · left
    have hnone : (computeLineStarts text)[first]? = none := by
      rw [List.getElem?_eq_none_iff, length_computeLineStarts]
      omega
    refine ⟨by rw [hnone, Option.map_none], rangeText_of_le ?_⟩
    have hend : positionOffset text range.start = Text.len text := by
      rw [positionOffset, offsetAt, List.getElem?_eq_none (by omega)]
    rw [hend]
    exact (boundary_offsetAt text _ _).le

/-! ## Warm and cold reads

A cold read decodes the whole file; a warm one only the window, through an index that may be of an
older file. -/

section Reads

variable {Path Time : Type}

/-- Reading the whole file now: its text, if it can be read and is UTF-8, in the document code. -/
def wholeFileRead (fs : FileSystem Path Time) (path : Path) (range : Range) : Checked Text :=
  match fs.readToString path with
  | some text => (Document.new text).textInRange range
  | none => .ok []

lemma read_eq_of_readToString {fs : FileSystem Path Time} {path : Path} {text : Text}
    (h : fs.readToString path = some text) : fs.read path = some (Text.bytes text) := by
  obtain ⟨bs, hbs, htext⟩ := Option.bind_eq_some_iff.mp h
  rw [hbs, Text.fromUtf8_eq_some_iff.mp htext]

lemma readToString_of_read {fs : FileSystem Path Time} {path : Path} {text : Text}
    (h : fs.read path = some (Text.bytes text)) : fs.readToString path = some text := by
  rw [FileSystem.readToString, h, Option.bind_some, Text.fromUtf8_bytes]

lemma wholeFileRead_eq {fs : FileSystem Path Time} {path : Path} {text : Text}
    (h : fs.read path = some (Text.bytes text)) (range : Range) :
    wholeFileRead fs path range = .ok (rangeText text range) := by
  rw [wholeFileRead, readToString_of_read h]
  exact textInRange_new text range

/-- **Warm is cold.**  Through the index of the text the file still has, a range is answered as the
whole file answers it. -/
theorem readRange_eq {fs : FileSystem Path Time} {path : Path} {text : Text}
    (h : fs.read path = some (Text.bytes text)) (key : Path) (stamp : FileStamp Time)
    (range : Range) :
    (DiskIndex.ofText key stamp text).readRange fs path range = .ok (rangeText text range) := by
  rcases exists_window key stamp text range with ⟨hnone, hempty⟩ | ⟨before, part, after, hw, hsome⟩
  · simp only [DiskIndex.readRange, hnone, hempty]
  · have hread : fs.readExactAt path (Text.len before) (Text.len part)
        = some (Text.bytes part) := by
      have hbytes := Text.bytes_slice before part after
      rw [FileSystem.readExactAt, h, Option.bind_some, hw.text_eq, hbytes]
      refine if_pos ?_
      rw [List.length_drop, Text.length_bytes]
      simp only [Text.len_append]
      omega
    have hsize : checkedSub (Text.len before + Text.len part) (Text.len before)
        = .ok (Text.len part) := by
      rw [checkedSub_of_le (Nat.le_add_right _ _), Nat.add_sub_cancel_left]
    simp only [DiskIndex.readRange, hsome, hsize, bind, Except.bind, hread, Text.fromUtf8_bytes,
      textInRange_new, hw.rangeText_eq]

/-- A file that cannot be read answers nothing through any index whose lines are in order. -/
lemma readRange_unreadable {fs : FileSystem Path Time} {path : Path}
    (h : fs.read path = none) (key : Path) (stamp : FileStamp Time) (text : Text)
    (range : Range) : (DiskIndex.ofText key stamp text).readRange fs path range = .ok [] := by
  rcases exists_window key stamp text range with ⟨hnone, -⟩ | ⟨before, part, after, -, hsome⟩
  · simp only [DiskIndex.readRange, hnone]
  · have hread : fs.readExactAt path (Text.len before) (Text.len part) = none := by
      rw [FileSystem.readExactAt, h, Option.bind_none]
    simp only [DiskIndex.readRange, hsome, checkedSub_of_le (Nat.le_add_right _ _),
      Nat.add_sub_cancel_left, bind, Except.bind, hread]

/-! ## Sequences of calls

If a matching stamp means the same contents, the index is always of the file as it is, and warm and
cold reads agree. -/

/-- One call of `text_from_disk`, with the file system as it is during the call. -/
structure DiskCall (Path Time : Type) where
  fs : FileSystem Path Time
  path : Path
  range : Range

/-- The answers to a sequence of calls. -/
def DocumentStore.diskReads {Url : Type} [DecidableEq Path] [DecidableEq Time] :
    DocumentStore Url Path Time → List (DiskCall Path Time) → Checked (List Text)
  | _, [] => .ok []
  | s, call :: calls => do
      let (answer, s) ← s.textFromDisk call.fs call.path call.range
      let answers ← s.diskReads calls
      return answer :: answers

/-- For one path, stamps that match stand for the same contents, whenever they were taken. -/
def StampsIdentify [DecidableEq Time] (systems : List (FileSystem Path Time)) : Prop :=
  ∀ fs ∈ systems, ∀ fs' ∈ systems, ∀ path f f', fs path = some f → fs' path = some f' →
    f.stamp.matchesStamp f'.stamp = true → f.contents = f'.contents

/-- The cached index, if any, is that of a text some file system on record had under its path and
stamp. -/
def Indexed {Url : Type} (systems : List (FileSystem Path Time))
    (s : DocumentStore Url Path Time) : Prop :=
  ∀ index, s.disk = some index → ∃ fs ∈ systems, ∃ f text, fs index.path = some f ∧
    f.contents = Text.bytes text ∧ index = DiskIndex.ofText index.path f.stamp text

variable {Url : Type} [DecidableEq Path] [DecidableEq Time]

/-- A cached index that is used is that of the text the file has now. -/
lemma Indexed.contents_eq {systems : List (FileSystem Path Time)}
    {s : DocumentStore Url Path Time} (hs : Indexed systems s) (hid : StampsIdentify systems)
    {fs : FileSystem Path Time} (hfs : fs ∈ systems) {path : Path} {f : File Time}
    (hf : fs path = some f) {index : DiskIndex Path Time}
    (hc : s.cachedIndex path f.stamp = some index) :
    ∃ text, f.contents = Text.bytes text ∧
      index = DiskIndex.ofText index.path index.stamp text := by
  rw [DocumentStore.cachedIndex, Option.filter_eq_some_iff, Bool.and_eq_true,
    decide_eq_true_eq] at hc
  obtain ⟨hdisk, hpath, hstamp⟩ := hc
  obtain ⟨fs', hfs', f', text, hf', hcontents, hindex⟩ := hs index hdisk
  have hstamp' : index.stamp = f'.stamp := by rw [hindex]; rfl
  rw [hpath] at hf'
  rw [hstamp'] at hstamp ⊢
  refine ⟨text, ?_, hindex⟩
  rw [← hid fs' hfs' fs hfs path f' f hf' hf hstamp, hcontents]

/-- **One call.**  It answers as the whole file does, and leaves the index of a text on record. -/
theorem textFromDisk_spec {systems : List (FileSystem Path Time)}
    {s : DocumentStore Url Path Time} (hs : Indexed systems s) (hid : StampsIdentify systems)
    {fs : FileSystem Path Time} (hfs : fs ∈ systems) (path : Path) (range : Range) :
    ∃ answer s', s.textFromDisk fs path range = .ok (answer, s') ∧
      wholeFileRead fs path range = .ok answer ∧ Indexed systems s' := by
  cases hf : fs path with
  | none =>
      have hstr : fs.readToString path = none := by
        simp [FileSystem.readToString, FileSystem.read, hf]
      exact ⟨[], s, by simp [DocumentStore.textFromDisk, FileSystem.metadata, hf],
        by rw [wholeFileRead, hstr], hs⟩
  | some f =>
      have hmeta : fs.metadata path = some f.stamp := by rw [FileSystem.metadata, hf]; rfl
      have hread : fs.read path = if f.readable then some f.contents else none := by
        rw [FileSystem.read, hf, Option.bind_some]
      cases hc : s.cachedIndex path f.stamp with
      | some index =>
          obtain ⟨text, htext, hindex⟩ := hs.contents_eq hid hfs hf hc
          rw [htext] at hread
          cases hr : f.readable with
          | true =>
              rw [hr, if_pos rfl] at hread
              refine ⟨rangeText text range, s, ?_, wholeFileRead_eq hread range, hs⟩
              have hwarm := readRange_eq hread index.path index.stamp range
              rw [← hindex] at hwarm
              simp only [DocumentStore.textFromDisk, hmeta, hc, hwarm, bind, Except.bind, pure,
                Except.pure]
          | false =>
              rw [hr, if_neg (by decide)] at hread
              refine ⟨[], s, ?_, by simp [wholeFileRead, FileSystem.readToString, hread], hs⟩
              have hwarm := readRange_unreadable hread index.path index.stamp text range
              rw [← hindex] at hwarm
              simp only [DocumentStore.textFromDisk, hmeta, hc, hwarm, bind, Except.bind, pure,
                Except.pure]
      | none =>
          cases hstr : fs.readToString path with
          | none =>
              refine ⟨[], { s with disk := none }, ?_, by rw [wholeFileRead, hstr], ?_⟩
              · simp only [DocumentStore.textFromDisk, hmeta, hc, hstr]
              · intro index hdisk
                cases hdisk
          | some text =>
              have hbytes := read_eq_of_readToString hstr
              refine ⟨rangeText text range,
                { s with disk := some (DiskIndex.ofText path f.stamp text) }, ?_,
                wholeFileRead_eq hbytes range, ?_⟩
              · simp only [DocumentStore.textFromDisk, hmeta, hc, hstr, textInRange_new, bind,
                  Except.bind, pure, Except.pure, DiskIndex.ofText, Document.new_text,
                  Document.new_lineStarts]
              · intro index hdisk
                cases hdisk
                refine ⟨fs, hfs, f, text, hf, ?_, rfl⟩
                rw [hread] at hbytes
                split_ifs at hbytes
                exact Option.some.inj hbytes

/-- A sequence of calls, from any store whose index is that of a text on record. -/
lemma diskReads_spec {systems : List (FileSystem Path Time)}
    {s : DocumentStore Url Path Time} (hs : Indexed systems s) (hid : StampsIdentify systems)
    (calls : List (DiskCall Path Time)) (hcalls : ∀ call ∈ calls, call.fs ∈ systems) :
    ∃ answers, s.diskReads calls = .ok answers ∧
      calls.mapM (fun call => wholeFileRead call.fs call.path call.range) = .ok answers := by
  induction calls generalizing s with
  | nil => exact ⟨[], rfl, rfl⟩
  | cons call calls ih =>
      obtain ⟨answer, s', hone, hwhole, hs'⟩ :=
        textFromDisk_spec hs hid (hcalls call List.mem_cons_self) call.path call.range
      obtain ⟨answers, hrest, hwholes⟩ := ih hs' fun c hc => hcalls c (List.mem_cons_of_mem _ hc)
      refine ⟨answer :: answers, ?_, ?_⟩
      · simp only [DocumentStore.diskReads, hone, hrest, bind, Except.bind, pure, Except.pure]
      · simp only [List.mapM_cons, hwhole, hwholes, bind, Except.bind, pure, Except.pure]

/-- **Any sequence of calls.**  Files come, go, change and lose their permissions between them; as
long as matching stamps of one path stand for the same contents, every call answers what reading the
whole file at that moment would.  The warm path alone agrees with the cold one for every text and
every range, through a window that begins and ends on boundaries. -/
theorem diskReads_eq_wholeFileReads (calls : List (DiskCall Path Time))
    (hid : StampsIdentify (calls.map DiskCall.fs)) :
    (∃ answers, (DocumentStore.new : DocumentStore Url Path Time).diskReads calls = .ok answers ∧
      calls.mapM (fun call => wholeFileRead call.fs call.path call.range) = .ok answers) ∧
    ∀ (text : Text) (path : Path) (stamp : FileStamp Time) (range : Range),
      (∀ fs : FileSystem Path Time, fs.read path = some (Text.bytes text) →
        (DiskIndex.ofText path stamp text).readRange fs path range
          = (Document.new text).textInRange range) ∧
      ∀ windowStart windowEnd,
        (DiskIndex.ofText path stamp text).window range = some (windowStart, windowEnd) →
          IsBoundary Char.utf8Size text windowStart ∧
            IsBoundary Char.utf8Size text windowEnd ∧ windowStart ≤ windowEnd := by
  have hnew : Indexed (calls.map DiskCall.fs)
      (DocumentStore.new : DocumentStore Url Path Time) := by
    intro index hdisk
    cases hdisk
  refine ⟨diskReads_spec hnew hid calls fun call hc => List.mem_map_of_mem hc, ?_⟩
  intro text path stamp range
  refine ⟨fun fs h => (readRange_eq h path stamp range).trans (textInRange_new text range).symm, ?_⟩
  intro windowStart windowEnd hwindow
  rcases exists_window path stamp text range with ⟨hnone, -⟩ | ⟨before, part, after, hw, hsome⟩
  · rw [hnone] at hwindow
    cases hwindow
  · rw [hsome] at hwindow
    cases hwindow
    have htext := hw.text_eq
    refine ⟨⟨before, part ++ after, by rw [htext, List.append_assoc], rfl⟩,
      ⟨before ++ part, after, htext, Text.len_append before part⟩, Nat.le_add_right _ _⟩

/-- Three reads of a file, from the second on through its index, and two after it was rewritten. -/
def rewrittenFile : List (DiskCall Unit ℕ) :=
  let file (modified : ℕ) (text : Text) (_ : Unit) : Option (File ℕ) :=
    some ⟨⟨Text.len text, some modified⟩, Text.bytes text, true⟩
  let before := file 1 ['a', '\n', 'é', 'b', '\r', '\n', 'c']
  let after := file 2 ['x', '\n', 'y', 'z']
  let range (l c l' c' : UInt32) : Range := ⟨⟨l, c⟩, ⟨l', c'⟩⟩
  [⟨before, (), range 0 0 1 9⟩, ⟨before, (), range 1 1 2 0⟩, ⟨before, (), range 2 0 0 0⟩,
    ⟨after, (), range 1 0 7 0⟩, ⟨fun _ => none, (), range 0 0 1 0⟩]

theorem diskReads_eq_wholeFileReads_rewrittenFile :
    ∃ answers,
      (DocumentStore.new : DocumentStore Unit Unit ℕ).diskReads rewrittenFile = .ok answers ∧
      rewrittenFile.mapM (fun call => wholeFileRead call.fs call.path call.range)
        = .ok answers :=
  (diskReads_eq_wholeFileReads rewrittenFile
    (by simp [StampsIdentify, rewrittenFile, FileStamp.matchesStamp, imp_and]; grind)).1

end Reads

end Connect
