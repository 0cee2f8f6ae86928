import ClaudeCodeConnect.Lsp.Document
import Mathlib.Logic.Function.Basic

/-!
# The buffers Zed has open, and the file they are read from otherwise

`DocumentStore` of `lsp/documents.rs`: the mirrored buffers by URI, and the line index of the last
unmirrored file a range was read from.

* `openDoc`, `close`, `apply`, `textInRange` -- document sync on the mirror.
* `FileStamp`, `DiskIndex.readRange`, `textFromDisk`, `textForRange` -- reading a range of a file
  that is not mirrored, through an index kept between calls.

Paths, URIs and times are abstract: the code only ever compares them.  The file system is what the
operating system would answer at the moment of a call, and a call sees one of them.
-/

namespace Connect

/-- `MAX_CACHED_BYTES`. -/
def maxCachedBytes : ℕ := 4 * 1024 * 1024

/-! ## Files

What the operating system is asked, and the index of one file. -/

/-- `FileStamp`: what tells one state of a file from another. -/
structure FileStamp (Time : Type) where
  len : ℕ
  /-- `none` on a file system that does not report it. -/
  modified : Option Time
  deriving DecidableEq, Repr

/-- `FileStamp::matches`: only a reported time matches. -/
def FileStamp.matchesStamp {Time : Type} [DecidableEq Time] (a b : FileStamp Time) : Bool :=
  a.modified.isSome && decide (a.modified = b.modified) && decide (a.len = b.len)

/-- A file at one moment: what `stat` reports of it, its bytes, and whether it can be opened and
read. -/
structure File (Time : Type) where
  stamp : FileStamp Time
  contents : List UInt8
  readable : Bool
  deriving DecidableEq, Repr

/-- What the operating system answers at one moment; `none` where there is nothing to `stat`. -/
abbrev FileSystem (Path Time : Type) := Path → Option (File Time)

namespace FileSystem

variable {Path Time : Type}

/-- `std::fs::metadata`. -/
def metadata (fs : FileSystem Path Time) (path : Path) : Option (FileStamp Time) :=
  (fs path).map File.stamp

/-- The bytes of a file that can be read. -/
def read (fs : FileSystem Path Time) (path : Path) : Option (List UInt8) :=
  (fs path).bind fun f => if f.readable then some f.contents else none

/-- `std::fs::read_to_string`: an error on a file that cannot be read or is not UTF-8. -/
def readToString (fs : FileSystem Path Time) (path : Path) : Option Text :=
  (fs.read path).bind Text.fromUtf8

/-- `File::open`, `seek(SeekFrom::Start(pos))`, `read_exact` of `n` bytes. -/
def readExactAt (fs : FileSystem Path Time) (path : Path) (pos n : ℕ) : Option (List UInt8) :=
  (fs.read path).bind fun bs =>
    if n ≤ (bs.drop pos).length then some ((bs.drop pos).take n) else none

end FileSystem

/-- The line index of one unmirrored file. -/
structure DiskIndex (Path Time : Type) where
  path : Path
  stamp : FileStamp Time
  lineStarts : List ℕ
  len : ℕ
  deriving DecidableEq, Repr

namespace DiskIndex

variable {Path Time : Type}

/-- `window_start..window_end`: the bytes of the lines the range names.  `none` when its first line
is past the end of the file. -/
def window (idx : DiskIndex Path Time) (range : Range) : Option (ℕ × ℕ) :=
  idx.lineStarts[range.start.line.toNat]?.map fun windowStart =>
    (windowStart, max ((idx.lineStarts[range.stop.line.toNat + 1]?).getD idx.len) windowStart)

/-- The range, rebased onto the window. -/
def rebase (range : Range) : Range :=
  { start := ⟨0, range.start.character⟩
    stop := ⟨UInt32.ofNat (range.stop.line.toNat - range.start.line.toNat), range.stop.character⟩ }

/-- `DiskIndex::read_range`: the window is read, decoded, and the range resolved in it.  Whatever
fails on the way, the answer is the empty text. -/
def readRange (idx : DiskIndex Path Time) (fs : FileSystem Path Time) (path : Path)
    (range : Range) : Checked Text :=
  match idx.window range with
  | none => .ok []
  | some (windowStart, windowEnd) => do
      let size ← checkedSub windowEnd windowStart
      match fs.readExactAt path windowStart size with
      | none => .ok []
      | some buf =>
          match Text.fromUtf8 buf with
          | none => .ok []
          | some window => (Document.new window).textInRange (rebase range)

end DiskIndex

/-! ## The store

The operations under the names of the source.  A warm read goes through the index, a cold one
replaces it. -/

/-- `DocumentStore`: the open documents, and one index of a file that is not open. -/
structure DocumentStore (Url Path Time : Type) where
  docs : Url → Option Document
  /-- Line index of the last unmirrored file a range was read from. -/
  disk : Option (DiskIndex Path Time)

namespace DocumentStore

variable {Url Path Time : Type}

/-- Nothing open, nothing read. -/
def new : DocumentStore Url Path Time := ⟨fun _ => none, none⟩

section Mirror

variable [DecidableEq Url]

/-- `DocumentStore::open`. -/
def openDoc (s : DocumentStore Url Path Time) (uri : Url) (text : Text) :
    DocumentStore Url Path Time :=
  if Text.len text > maxCachedBytes then { s with docs := Function.update s.docs uri none }
  else { s with docs := Function.update s.docs uri (some (Document.new text)) }

/-- `DocumentStore::close`. -/
def close (s : DocumentStore Url Path Time) (uri : Url) : DocumentStore Url Path Time :=
  { s with docs := Function.update s.docs uri none }

/-- `DocumentStore::apply`: the changes one after the other; a document that outgrows the cap is
dropped, and one that is not there stays away. -/
def apply (s : DocumentStore Url Path Time) (uri : Url) (changes : List ContentChange) :
    Checked (DocumentStore Url Path Time) :=
  match s.docs uri with
  | none => .ok s
  | some doc => do
      let doc ← changes.foldlM Document.applyChange doc
      if Text.len doc.text > maxCachedBytes then
        return { s with docs := Function.update s.docs uri none }
      else
        return { s with docs := Function.update s.docs uri (some doc) }

end Mirror

/-- `DocumentStore::text_in_range`: `None` for a document that is not there. -/
def textInRange (s : DocumentStore Url Path Time) (uri : Url) (range : Range) :
    Checked (Option Text) :=
  match s.docs uri with
  | none => .ok none
  | some doc => do return some (← doc.textInRange range)

section Disk

variable [DecidableEq Path] [DecidableEq Time]

/-- The index the store keeps, if it is for this path and its stamp still matches. -/
def cachedIndex (s : DocumentStore Url Path Time) (path : Path) (stamp : FileStamp Time) :
    Option (DiskIndex Path Time) :=
  s.disk.filter fun cached => decide (cached.path = path) && cached.stamp.matchesStamp stamp

/-- `DocumentStore::text_from_disk`: through the index if its stamp matches, else by reading the
whole file and indexing it for the next time. -/
def textFromDisk (s : DocumentStore Url Path Time) (fs : FileSystem Path Time) (path : Path)
    (range : Range) : Checked (Text × DocumentStore Url Path Time) :=
  match fs.metadata path with
  | none => .ok ([], s)
  | some stamp =>
      match s.cachedIndex path stamp with
      | some cached => do return (← cached.readRange fs path range, s)
      | none =>
          match fs.readToString path with
          | none => .ok ([], { s with disk := none })
          | some text => do
              let doc := Document.new text
              let answer ← doc.textInRange range
              let index : DiskIndex Path Time :=
                { path := path
                  stamp := stamp
                  lineStarts := doc.lineStarts
                  len := Text.len doc.text }
              return (answer, { s with disk := some index })

/-- `text_for_range`: from the mirror if the document is there, from disk if not; a bare cursor
needs neither. -/
def textForRange (s : DocumentStore Url Path Time) (fs : FileSystem Path Time) (uri : Url)
    (path : Path) (range : Range) : Checked (Text × DocumentStore Url Path Time) :=
  if range.start = range.stop then .ok ([], s)
  else do
    match ← s.textInRange uri range with
    | some text => return (text, s)
    | none => s.textFromDisk fs path range

end Disk

end DocumentStore

/-! ## Reading never panics

The slices of a warm read are of whole lines of a decoded window, so no index is out of bounds. -/

section

variable {Url Path Time : Type}

/-- A range of a text can be read, whatever index is used. -/
lemma DiskIndex.readRange_ok (idx : DiskIndex Path Time) (fs : FileSystem Path Time) (path : Path)
    (range : Range) : ∃ answer, idx.readRange fs path range = .ok answer := by
  rw [DiskIndex.readRange]
  cases hwindow : idx.window range with
  | none => exact ⟨[], rfl⟩
  | some w =>
      obtain ⟨windowStart, windowEnd⟩ := w
      have hle : windowStart ≤ windowEnd := by
        obtain ⟨start, -, heq⟩ := Option.map_eq_some_iff.mp hwindow
        cases heq
        exact Nat.le_max_right _ _
      simp only [checkedSub_of_le hle, bind, Except.bind]
      split
      · exact ⟨[], rfl⟩
      · split
        · exact ⟨[], rfl⟩
        · exact ⟨_, textInRange_new _ _⟩

lemma DocumentStore.textFromDisk_ok [DecidableEq Path] [DecidableEq Time]
    (d : DocumentStore Url Path Time) (fs : FileSystem Path Time) (path : Path)
    (range : Range) : ∃ answer d', d.textFromDisk fs path range = .ok (answer, d') ∧
      d'.docs = d.docs := by
  rw [DocumentStore.textFromDisk]
  split
  · exact ⟨[], d, rfl, rfl⟩
  · split
    · rename_i cached _
      obtain ⟨answer, hanswer⟩ := cached.readRange_ok fs path range
      refine ⟨answer, d, ?_, rfl⟩
      simp only [hanswer, bind, Except.bind, pure, Except.pure]
    · split
      · exact ⟨[], _, rfl, rfl⟩
      · simp only [textInRange_new, bind, Except.bind, pure, Except.pure]
        exact ⟨_, _, rfl, rfl⟩

end

end Connect
