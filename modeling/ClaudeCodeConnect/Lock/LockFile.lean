import ClaudeCodeConnect.Core.RustStr

/-!
# Lock files and their names

The types of `lockfile.rs`, and how a port becomes a file name and a file name a port.

* `LockFile`, `RawLock` -- what this companion writes, and what is read back of any lock.
* `lockFileName`, `tmpFileName` -- the names `LockDir::write` uses.
* `lockPort?` -- the port of a name, as the sweep and discovery take it: by extension and stem.
* `lockPort?_eq_some_iff` -- the names that have a port.
* `lockPort?_lockFileName`, `lockPort?_tmpFileName` -- a lock's name gives its port back, and a
  temporary file is no lock.

A file name that is not UTF-8 is skipped by everything here, so names are texts.
-/

namespace Connect

/-- `IDE_NAME`. -/
def ideName : Text := ['Z', 'e', 'd']

/-- What this companion writes. -/
structure LockFile where
  pid : UInt32
  workspaceFolders : List Text
  ideName : Text
  transport : Text
  runningInWindows : Bool
  authToken : Text
  deriving DecidableEq, Repr

/-- What this project reads from any lock in the directory. -/
structure RawLock where
  workspaceFolders : List Text
  authToken : Text
  ideName : Text
  pid : UInt32
  deriving DecidableEq, Repr

/-- `LockFile::for_this_process`. -/
def LockFile.forThisProcess (pid : UInt32) (worktree authToken : Text) : LockFile where
  pid := pid
  workspaceFolders := [worktree]
  ideName := Connect.ideName
  transport := ['w', 's']
  runningInWindows := false
  authToken := authToken

/-- The body of a lock this companion wrote, read back: four of its six keys. -/
def LockFile.toRawLock (lock : LockFile) : RawLock where
  workspaceFolders := lock.workspaceFolders
  authToken := lock.authToken
  ideName := lock.ideName
  pid := lock.pid

/-! ## Names

`{port}.lock` and back.  The sweep and discovery take a name apart by its extension, which the
temporary name does not have. -/

/-- `"lock"`. -/
def lockExtension : Text := ['l', 'o', 'c', 'k']

/-- `{port}.lock`. -/
def lockFileName (port : UInt16) : Text := Text.toDigits port.toNat ++ '.' :: lockExtension

/-- `.{port}.lock.tmp`. -/
def tmpFileName (port : UInt16) : Text :=
  '.' :: Text.toDigits port.toNat ++ '.' :: lockExtension ++ ['.', 't', 'm', 'p']

/-- Split at the last dot. -/
def rsplitDot (name : Text) : Option (Text × Text) :=
  (Text.splitOnce '.' name.reverse).map fun q => (q.2.reverse, q.1.reverse)

/-- `Path::file_stem`, of a file name. -/
def fileStem (name : Text) : Text :=
  if name = ['.', '.'] then name
  else match rsplitDot name with
    | some (before, _) => if before = [] then name else before
    | none => name

/-- `Path::extension`, of a file name. -/
def fileExtension (name : Text) : Option Text :=
  if name = ['.', '.'] then none
  else match rsplitDot name with
    | some (before, after) => if before = [] then none else some after
    | none => none

/-- The port of a lock's name: `None` for any other name. -/
def lockPort? (name : Text) : Option UInt16 :=
  if fileExtension name = some lockExtension then
    (Text.parseUnsigned UInt16.size (fileStem name)).map UInt16.ofNat
  else none

lemma rsplitDot_append (before : Text) {after : Text} (h : '.' ∉ after) :
    rsplitDot (before ++ '.' :: after) = some (before, after) := by
  have hreverse : (before ++ '.' :: after).reverse = after.reverse ++ '.' :: before.reverse := by
    simp
  have hafter : '.' ∉ after.reverse := by rwa [List.mem_reverse]
  rw [rsplitDot, hreverse, Text.splitOnce_append hafter]
  simp

lemma rsplitDot_eq_some_iff {name before after : Text} :
    rsplitDot name = some (before, after) ↔ name = before ++ '.' :: after ∧ '.' ∉ after := by
  refine ⟨fun h => ?_, fun ⟨hname, hafter⟩ => hname ▸ rsplitDot_append before hafter⟩
  rw [rsplitDot, Option.map_eq_some_iff] at h
  obtain ⟨⟨a, b⟩, hsplit, heq⟩ := h
  obtain ⟨hreverse, ha⟩ := Text.splitOnce_eq_some hsplit
  cases heq
  refine ⟨?_, by rwa [List.mem_reverse]⟩
  rw [← name.reverse_reverse, hreverse]
  simp

/-- **The names that have a port**: what `parse` takes for a `u16`, and the extension. -/
theorem lockPort?_eq_some_iff {name : Text} {port : UInt16} :
    lockPort? name = some port ↔ ∃ stem, name = stem ++ '.' :: lockExtension ∧
      Text.parseUnsigned UInt16.size stem = some port.toNat := by
  constructor
  · intro h
    rw [lockPort?] at h
    split_ifs at h with hext
    obtain ⟨n, hn, rfl⟩ := Option.map_eq_some_iff.mp h
    rw [fileExtension] at hext
    split_ifs at hext with hdots
    cases hsplit : rsplitDot name with
    | none => simp [hsplit] at hext
    | some parts =>
        obtain ⟨stem, after⟩ := parts
        simp only [hsplit] at hext
        split_ifs at hext with hstem
        cases hext
        rw [fileStem, if_neg hdots] at hn
        simp only [hsplit, if_neg hstem] at hn
        refine ⟨stem, (rsplitDot_eq_some_iff.mp hsplit).1, ?_⟩
        rw [UInt16.toNat_ofNat_of_lt' (Text.lt_of_parseUnsigned hn)]
        exact hn
  · rintro ⟨stem, rfl, hport⟩
    have hstem : stem ≠ [] := by
      rintro rfl
      simp [Text.parseUnsigned] at hport
    have hdots : stem ++ '.' :: lockExtension ≠ ['.', '.'] := by
      intro h
      have hmem : 'l' ∈ stem ++ '.' :: lockExtension := by simp [lockExtension]
      rw [h] at hmem
      exact absurd hmem (by decide)
    have hsplit : rsplitDot (stem ++ '.' :: lockExtension) = some (stem, lockExtension) :=
      rsplitDot_append stem (by decide)
    have hext : fileExtension (stem ++ '.' :: lockExtension) = some lockExtension := by
      simp only [fileExtension, if_neg hdots, hsplit, if_neg hstem]
    have hfile : fileStem (stem ++ '.' :: lockExtension) = stem := by
      simp only [fileStem, if_neg hdots, hsplit, if_neg hstem]
    rw [lockPort?, if_pos hext, hfile, hport, Option.map_some, UInt16.ofNat_toNat]

/-- **A lock's name gives its port back.** -/
theorem lockPort?_lockFileName (port : UInt16) : lockPort? (lockFileName port) = some port :=
  lockPort?_eq_some_iff.mpr
    ⟨Text.toDigits port.toNat, rfl, Text.parseUnsigned_toDigits port.toNat_lt⟩

/-- **A temporary file is no lock.** -/
theorem lockPort?_tmpFileName (port : UInt16) : lockPort? (tmpFileName port) = none := by
  have hsplit : rsplitDot (tmpFileName port)
      = some ('.' :: Text.toDigits port.toNat ++ '.' :: lockExtension, ['t', 'm', 'p']) :=
    rsplitDot_append _ (by decide)
  have hext : fileExtension (tmpFileName port) ≠ some lockExtension := by
    rw [fileExtension]
    split_ifs
    · simp
    · rw [hsplit]
      simp [lockExtension]
  rw [lockPort?, if_neg hext]

lemma tmpFileName_injective {p q : UInt16} (h : tmpFileName p = tmpFileName q) : p = q := by
  have hdigits : Text.toDigits p.toNat = Text.toDigits q.toNat := by
    simpa [tmpFileName] using h
  exact UInt16.toNat_inj.mp (Text.toDigits_injective hdigits)

end Connect
