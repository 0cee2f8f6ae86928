import ClaudeCodeConnect.Core.Interruptible
import ClaudeCodeConnect.Lock.LockJson
import Mathlib.Logic.Function.Basic

/-!
# Writing a lock file

`LockDir::write`, one system call a step and one byte of the body a step: to a temporary name, then
renamed.  Each call may fail, and a file may be there already under the temporary name.

* `LockDir.write` -- as the source has it.
* `AllOrNothing` -- at every moment the lock is the old one or the new one, whole; `Ok` is the new
  one and no temporary file; an error is the old one, and no file with the new token left.
* `write_allOrNothing_iff` -- it is, unless the call fails with the token already in the temporary
  file (`FailsLate`): nothing removes that file.
* `write_leaves_token` -- a rename that is refused.
-/

namespace Connect

open Interruptible

/-- `io::Error`. -/
inductive FsError
  | alreadyExists
  | os (code : ℤ)
  deriving DecidableEq, Repr

/-- A file of the lock directory. -/
structure FolderFile where
  contents : List UInt8
  mode : ℕ
  /-- Created by the call. -/
  fresh : Bool
  deriving DecidableEq, Repr

/-- An existing lock directory, files by name. -/
structure LockFolder where
  mode : ℕ
  files : Text → Option FolderFile

namespace LockFolder

/-- The directory before the call. -/
def before (mode : ℕ) (prior : Text → Option (List UInt8 × ℕ)) : LockFolder where
  mode := mode
  files name := (prior name).map fun f => ⟨f.1, f.2, false⟩

/-- The file of a name is replaced, created or removed. -/
def put (d : LockFolder) (name : Text) (f : Option FolderFile) : LockFolder :=
  { d with files := Function.update d.files name f }

/-- Write a byte at the end. -/
def append (d : LockFolder) (name : Text) (b : UInt8) : LockFolder :=
  d.put name ((d.files name).map fun f => { f with contents := f.contents ++ [b] })

/-- `fs::rename`. -/
def rename (d : LockFolder) (source target : Text) : LockFolder :=
  (d.put source none).put target (d.files source)

end LockFolder

/-- What the calls of one `write` answer. -/
structure WriteAnswers where
  createDirAll : Except FsError Unit
  setPermissions : Except FsError Unit
  /-- Whether `remove_file` succeeds on what an earlier call left. -/
  removeStale : Bool
  /-- `open`, if there is no such file. -/
  openNew : Except FsError Unit
  /-- Failing, it has written so many bytes. -/
  writeAll : Except (ℕ × FsError) Unit
  syncAll : Except FsError Unit
  rename : Except FsError Unit

/-- `LockGuard`: it removes the lock when it is dropped. -/
structure LockGuard where
  path : Text
  deriving DecidableEq, Repr

/-- A computation on the directory that may fail. -/
abbrev Writing (α : Type) : Type := ExceptT FsError (Interruptible LockFolder) α

/-- What `write` does to the directory. -/
def change (f : LockFolder → LockFolder) : Writing Unit :=
  liftM (step f : Interruptible LockFolder Unit)

namespace LockDir

/-- `prepare`, of a directory that exists. -/
def prepare (a : WriteAnswers) : Writing Unit := do
  liftExcept a.createDirAll
  liftExcept a.setPermissions
  change fun d => { d with mode := 0o700 }

/-- `OpenOptions` with `create_new` and mode `0600`. -/
def createNew (a : WriteAnswers) (path : Text) : Writing Unit := do
  let d ← liftM (Interruptible.read : Interruptible LockFolder LockFolder)
  if (d.files path).isSome then throw FsError.alreadyExists
  else
    liftExcept a.openNew
    change (·.put path (some ⟨[], 0o600, true⟩))

/-- Byte by byte. -/
def appendAll (path : Text) (bytes : List UInt8) : Interruptible LockFolder Unit :=
  bytes.forM fun b => step (·.append path b)

/-- `write_all`: all of it, or some bytes and an error. -/
def writeAll (a : WriteAnswers) (path : Text) (json : List UInt8) : Writing Unit :=
  match a.writeAll with
  | .ok () => liftM (appendAll path json)
  | .error (written, e) => do
      liftM (appendAll path (json.take written))
      throw e

/-- `LockDir::write`. -/
def write (a : WriteAnswers) (port : UInt16) (lock : LockFile) : Writing LockGuard := do
  prepare a
  let finalPath := lockFileName port
  let tmpPath := tmpFileName port
  liftM (stepIf a.removeStale (·.put tmpPath none) : Interruptible LockFolder Unit)
  -- `to_vec` does not fail on these fields
  let json := lock.toVec
  createNew a tmpPath
  writeAll a tmpPath json
  liftExcept a.syncAll
  liftExcept a.rename
  change (·.rename tmpPath finalPath)
  return ⟨finalPath⟩

end LockDir

/-! ## The law

What a reader, and whoever looks through the directory, may see at each moment and at the end. -/

/-- A file created by the call holds the token. -/
def Leaks (token : List UInt8) (d : LockFolder) : Prop :=
  ∃ name f, d.files name = some f ∧ f.fresh = true ∧ token <:+: f.contents

/-- What the lock of a port holds is the JSON of `lock`. -/
def Holds (port : UInt16) (lock : LockFile) (d : LockFolder) : Prop :=
  ∃ f, d.files (lockFileName port) = some f ∧ f.contents = lock.toVec

/-- The lock of a port is the same in both. -/
def SameLock (port : UInt16) (d d' : LockFolder) : Prop :=
  d'.files (lockFileName port) = d.files (lockFileName port)

/-- **All or nothing.** -/
structure AllOrNothing (port : UInt16) (lock : LockFile) (d : LockFolder)
    (p : Passage LockFolder (Except FsError LockGuard)) : Prop where
  moments : ∀ t ∈ p.moments, SameLock port d t ∨ Holds port lock t
  ok : ∀ guard, p.value = .ok guard →
    Holds port lock p.last ∧ p.last.files (tmpFileName port) = none
  err : ∀ e, p.value = .error e → SameLock port d p.last ∧ ¬Leaks lock.writtenToken p.last

/-- The directory is prepared, and nothing is left, or stays, under the temporary name. -/
def WriteAnswers.creates (a : WriteAnswers) (port : UInt16) (d : LockFolder) : Prop :=
  (a.createDirAll = .ok () ∧ a.setPermissions = .ok ()) ∧
    (a.removeStale = true ∨ d.files (tmpFileName port) = none) ∧ a.openNew = .ok ()

/-- The temporary file is created, and the call fails with the token in it: the write after as many
bytes, or the sync, or the rename. -/
def FailsLate (a : WriteAnswers) (port : UInt16) (lock : LockFile) (d : LockFolder) : Prop :=
  a.creates port d ∧
    match a.writeAll with
    | .error (written, _) => lock.writtenToken <:+: lock.toVec.take written
    | .ok () => a.syncAll ≠ .ok () ∨ a.rename ≠ .ok ()

/-- Whoever reads a lock that holds the JSON reads the lock that was written. -/
theorem Holds.reads {port : UInt16} {lock : LockFile} {d : LockFolder}
    {parse : Text → Option RawLock} (hparse : parse lock.toJson = some lock.toRawLock)
    (h : Holds port lock d) :
    ((d.files (lockFileName port)).bind fun f => Text.fromUtf8 f.contents).bind parse
      = some lock.toRawLock := by
  obtain ⟨f, hf, hcontents⟩ := h
  rw [hf, Option.bind_some, hcontents, LockFile.toVec, Text.fromUtf8_bytes, Option.bind_some,
    hparse]

/-! ## Step by step

One triple for each call of the source, on what stands under the temporary name. -/

lemma lockFileName_ne_tmpFileName (port : UInt16) : lockFileName port ≠ tmpFileName port := by
  intro h
  have hport := lockPort?_lockFileName port
  rw [h, lockPort?_tmpFileName] at hport
  cases hport

section

variable {a : WriteAnswers} {port : UInt16} {lock : LockFile} {d : LockFolder}

/-- The directory is as it was, but for what is under the temporary name. -/
def AtTmp (port : UInt16) (d : LockFolder) (x : Option FolderFile) (t : LockFolder) : Prop :=
  t.files = Function.update d.files (tmpFileName port) x

/-- The temporary file, so far. -/
def tmpFile (contents : List UInt8) : Option FolderFile := some ⟨contents, 0o600, true⟩

lemma AtTmp.sameLock {x : Option FolderFile} {t : LockFolder} (h : AtTmp port d x t) :
    SameLock port d t := by
  rw [SameLock, h, Function.update_of_ne (lockFileName_ne_tmpFileName port)]

lemma AtTmp.put {x y : Option FolderFile} {t : LockFolder} (h : AtTmp port d x t) :
    AtTmp port d y (t.put (tmpFileName port) y) := by
  have ht : t.files = Function.update d.files (tmpFileName port) x := h
  show Function.update t.files (tmpFileName port) y = _
  rw [ht, Function.update_idem]

lemma AtTmp.tmp {x : Option FolderFile} {t : LockFolder} (h : AtTmp port d x t) :
    t.files (tmpFileName port) = x := by
  rw [h, Function.update_self]

lemma AtTmp.append {contents : List UInt8} {b : UInt8} {t : LockFolder}
    (h : AtTmp port d (tmpFile contents) t) :
    AtTmp port d (tmpFile (contents ++ [b])) (t.append (tmpFileName port) b) := by
  rw [LockFolder.append, h.tmp]
  exact h.put

/-- The lock is the old one or the new one. -/
def Whole (port : UInt16) (lock : LockFile) (d t : LockFolder) : Prop :=
  SameLock port d t ∨ Holds port lock t

lemma triple_change {f : LockFolder → LockFolder} {pre during : LockFolder → Prop}
    {ok : Unit → LockFolder → Prop} {err : FsError → LockFolder → Prop}
    (h : ∀ t, pre t → during (f t) ∧ ok () (f t)) :
    Triple pre (change f).run during (onResult ok err) := triple_lift (triple_step h)

/-- The directory is made private, or it is not and the call fails. -/
lemma prepare_triple (x : Option FolderFile) :
    Triple (AtTmp port d x) (LockDir.prepare a).run (Whole port lock d)
      (onResult
        (fun _ t => AtTmp port d x t ∧ a.createDirAll = .ok () ∧ a.setPermissions = .ok ())
        (fun _ t =>
          AtTmp port d x t ∧ ¬(a.createDirAll = .ok () ∧ a.setPermissions = .ok ()))) := by
  refine triple_bindExcept (fun _ t => AtTmp port d x t ∧ a.createDirAll = .ok ())
    (triple_liftExcept (fun u h t ht => ⟨ht, h⟩) fun e h t ht => ⟨ht, by simp [h]⟩) fun _ => ?_
  refine triple_bindExcept (fun _ t => AtTmp port d x t ∧ a.createDirAll = .ok () ∧
      a.setPermissions = .ok ())
    (triple_liftExcept (fun u h t ht => ⟨ht.1, ht.2, h⟩) fun e h t ht => ⟨ht.1, by simp [h]⟩)
    fun _ => ?_
  exact triple_change fun t ht => ⟨.inl (AtTmp.sameLock ht.1), ht⟩

/-- The temporary file is created empty, unless one is there or `open` fails. -/
lemma createNew_triple (x : Option FolderFile) :
    Triple (AtTmp port d x) (LockDir.createNew a (tmpFileName port)).run (Whole port lock d)
      (onResult (fun _ t => AtTmp port d (tmpFile []) t ∧ x = none ∧ a.openNew = .ok ())
        (fun _ t => AtTmp port d x t ∧ ¬(x = none ∧ a.openNew = .ok ()))) := by
  refine triple_bindExcept (fun t' t => AtTmp port d x t ∧ t'.files (tmpFileName port) = x)
    (triple_lift (triple_mono triple_read (fun _ h => h) (fun _ h => h) ?_)) fun t' => ?_
  · rintro t' t ⟨rfl, ht⟩
    exact ⟨ht, ht.tmp⟩
  · by_cases hx : (t'.files (tmpFileName port)).isSome = true
    · rw [if_pos hx]
      refine triple_throw fun t ⟨ht, htmp⟩ => ⟨ht, ?_⟩
      rintro ⟨rfl, -⟩
      simp [htmp] at hx
    · rw [if_neg hx]
      have hnone (htmp : t'.files (tmpFileName port) = x) : x = none := by
        simpa [htmp] using hx
      refine triple_bindExcept
        (fun _ t => AtTmp port d x t ∧ x = none ∧ a.openNew = .ok ())
        (triple_liftExcept (fun u h t ht => ⟨ht.1, hnone ht.2, h⟩)
          fun e h t ht => ⟨ht.1, by simp [h]⟩) fun _ => ?_
      exact triple_change fun t ht => ⟨.inl ht.1.put.sameLock, ht.1.put, ht.2⟩

lemma appendAll_triple (bytes : List UInt8) :
    Triple (AtTmp port d (tmpFile [])) (LockDir.appendAll (tmpFileName port) bytes)
      (Whole port lock d) fun _ => AtTmp port d (tmpFile bytes) :=
  triple_forM (fun done => AtTmp port d (tmpFile done)) fun _ _ _ _ =>
    triple_step fun _ ht => ⟨.inl ht.append.sameLock, ht.append⟩

/-- The body is written, or part of it. -/
lemma writeAll_triple (json : List UInt8) :
    Triple (AtTmp port d (tmpFile [])) (LockDir.writeAll a (tmpFileName port) json).run
      (Whole port lock d)
      (onResult (fun _ t => AtTmp port d (tmpFile json) t ∧ a.writeAll = .ok ())
        (fun _ t => ∃ written e, a.writeAll = .error (written, e) ∧
          AtTmp port d (tmpFile (json.take written)) t)) := by
  rw [LockDir.writeAll]
  cases hwrite : a.writeAll with
  | ok u =>
      exact triple_lift (triple_mono (appendAll_triple json) (fun _ h => h) (fun _ h => h)
        fun _ t ht => ⟨ht, rfl⟩)
  | error q =>
      obtain ⟨written, e⟩ := q
      exact triple_bindExcept _ (triple_lift (appendAll_triple (json.take written)))
        fun _ => triple_throw fun t ht => ⟨written, e, rfl, ht⟩

/-- What is under the temporary name is a file of this call that holds the token. -/
def HoldsToken (lock : LockFile) (x : Option FolderFile) : Prop :=
  ∃ f, x = some f ∧ f.fresh = true ∧ lock.writtenToken <:+: f.contents

lemma holdsToken_tmpFile {contents : List UInt8} :
    HoldsToken lock (tmpFile contents) ↔ lock.writtenToken <:+: contents := by
  constructor
  · rintro ⟨f, hf, -, htoken⟩
    cases hf
    exact htoken
  · exact fun h => ⟨_, rfl, rfl, h⟩

/-- Nothing but the temporary file can leak. -/
lemma AtTmp.leaks_iff {x : Option FolderFile} {t : LockFolder}
    (hprior : ∀ name f, d.files name = some f → f.fresh = false) (h : AtTmp port d x t) :
    Leaks lock.writtenToken t ↔ HoldsToken lock x := by
  constructor
  · rintro ⟨name, f, hf, hfresh, htoken⟩
    by_cases hname : name = tmpFileName port
    · rw [hname, h.tmp] at hf
      exact ⟨f, hf, hfresh, htoken⟩
    · rw [h, Function.update_of_ne hname] at hf
      rw [hprior name f hf] at hfresh
      cases hfresh
  · rintro ⟨f, rfl, hfresh, htoken⟩
    exact ⟨tmpFileName port, f, h.tmp, hfresh, htoken⟩

/-- An error leaves the directory as it was but for the temporary name, and the token there exactly
when the call fails late. -/
def Failed (a : WriteAnswers) (port : UInt16) (lock : LockFile) (d t : LockFolder) : Prop :=
  ∃ x, AtTmp port d x t ∧ (HoldsToken lock x ↔ FailsLate a port lock d)

lemma failed_early {x : Option FolderFile} {t : LockFolder}
    (hx : x = none ∨ x = d.files (tmpFileName port))
    (hprior : ∀ name f, d.files name = some f → f.fresh = false) (h : AtTmp port d x t)
    (hcreates : ¬a.creates port d) : Failed a port lock d t := by
  refine ⟨x, h, iff_of_false ?_ fun hlate => hcreates hlate.1⟩
  rintro ⟨f, hf, hfresh, -⟩
  rcases hx with rfl | rfl
  · cases hf
  · rw [hprior _ f hf] at hfresh
    cases hfresh

/-- From the empty temporary file on, which is ours, and which no error removes. -/
lemma publish_triple (hcreates : a.creates port d) :
    Triple (AtTmp port d (tmpFile []))
      (do
        LockDir.writeAll a (tmpFileName port) lock.toVec
        liftExcept a.syncAll
        liftExcept a.rename
        change (·.rename (tmpFileName port) (lockFileName port))
        return ⟨lockFileName port⟩ : Writing LockGuard).run
      (Whole port lock d)
      (onResult
        (fun _ t => (Holds port lock t ∧ t.files (tmpFileName port) = none) ∧
          ¬FailsLate a port lock d)
        (fun _ t => Failed a port lock d t)) := by
  have hlate {contents : List UInt8} {t : LockFolder} (ht : AtTmp port d (tmpFile contents) t)
      (hiff : lock.writtenToken <:+: contents ↔ FailsLate a port lock d) : Failed a port lock d t :=
    ⟨tmpFile contents, ht, holdsToken_tmpFile.trans hiff⟩
  refine triple_bindExcept _ (triple_mono (writeAll_triple lock.toVec) (fun _ h => h) (fun _ h => h)
    (onResult_mono (fun _ _ h => h) fun _ t ⟨written, e, hwrite, ht⟩ => hlate ht ?_))
    fun _ => triple_and fun hwrite => ?_
  · simp [FailsLate, hcreates, hwrite]
  have hfails : FailsLate a port lock d ↔ a.syncAll ≠ .ok () ∨ a.rename ≠ .ok () := by
    simp [FailsLate, hcreates, hwrite]
  have htoken {h : Prop} (hh : h) : lock.writtenToken <:+: lock.toVec ↔ h :=
    iff_of_true (writtenToken_infix_toVec lock) hh
  refine triple_bindExcept (fun _ t => AtTmp port d (tmpFile lock.toVec) t ∧ a.syncAll = .ok ())
    (triple_liftExcept (fun _ h t ht => ⟨ht, h⟩) fun e h t ht =>
      hlate ht (htoken (hfails.mpr (.inl (by simp [h])))))
    fun _ => triple_and fun hsync => ?_
  refine triple_bindExcept (fun _ t => AtTmp port d (tmpFile lock.toVec) t ∧ a.rename = .ok ())
    (triple_liftExcept (fun _ h t ht => ⟨ht, h⟩) fun e h t ht =>
      hlate ht (htoken (hfails.mpr (.inr (by simp [h])))))
    fun _ => triple_and fun hrename => ?_
  refine triple_bindExcept (fun _ t => Holds port lock t ∧ t.files (tmpFileName port) = none)
    (triple_change fun t ht => ?_) fun _ => triple_pure fun t ht => ⟨ht, ?_⟩
  · have hholds : Holds port lock (t.rename (tmpFileName port) (lockFileName port)) := by
      refine ⟨⟨lock.toVec, 0o600, true⟩, ?_, rfl⟩
      simp only [LockFolder.rename, LockFolder.put, ht.tmp, Function.update_self, tmpFile]
    have hgone : (t.rename (tmpFileName port) (lockFileName port)).files (tmpFileName port)
        = none := by
      simp only [LockFolder.rename, LockFolder.put]
      rw [Function.update_of_ne (lockFileName_ne_tmpFileName port).symm, Function.update_self]
    exact ⟨.inr hholds, hholds, hgone⟩
  · simp [hfails, hsync, hrename]

/-- **`write`, step by step.** -/
theorem write_triple (a : WriteAnswers) (port : UInt16) (lock : LockFile)
    (hprior : ∀ name f, d.files name = some f → f.fresh = false) :
    Triple (AtTmp port d (d.files (tmpFileName port))) (LockDir.write a port lock).run
      (Whole port lock d)
      (onResult
        (fun _ t => (Holds port lock t ∧ t.files (tmpFileName port) = none) ∧
          ¬FailsLate a port lock d)
        (fun _ t => Failed a port lock d t)) := by
  -- What the sweep of a stale file leaves, and when that is nothing.
  let x : Option FolderFile := if a.removeStale then none else d.files (tmpFileName port)
  have hx : x = none ∨ x = d.files (tmpFileName port) := by
    cases hremove : a.removeStale <;> simp [x, hremove]
  have hnone : x = none ↔ a.removeStale = true ∨ d.files (tmpFileName port) = none := by
    cases hremove : a.removeStale <;> simp [x, hremove]
  refine triple_bindExcept _ (triple_mono (prepare_triple _) (fun _ h => h) (fun _ h => h)
    (onResult_mono (fun _ _ h => h) fun _ t ⟨ht, hnot⟩ =>
      failed_early (.inr rfl) hprior ht fun hcreates => hnot hcreates.1))
    fun _ => triple_and fun hprepared => ?_
  refine triple_bindExcept (fun _ t => AtTmp port d x t)
    (triple_lift (triple_stepIf (fun hremove t ht => ?_) fun hremove t ht => ?_)) fun _ => ?_
  · rw [hnone.mpr (.inl hremove)]
    exact ⟨.inl ht.put.sameLock, ht.put⟩
  · have hkept : x = d.files (tmpFileName port) := by simp [x, hremove]
    rwa [hkept]
  refine triple_bindExcept _ (triple_mono (createNew_triple x) (fun _ h => h) (fun _ h => h)
    (onResult_mono (fun _ _ h => h) fun _ t ⟨ht, hnot⟩ =>
      failed_early hx hprior ht fun hcreates => hnot ⟨hnone.mpr hcreates.2.1, hcreates.2.2⟩))
    fun _ => triple_and fun ⟨hgone, hopen⟩ => ?_
  exact publish_triple ⟨hprepared, hnone.mp hgone, hopen⟩

/-- **All or nothing, unless it fails late.** -/
theorem write_allOrNothing_iff (a : WriteAnswers) (port : UInt16) (lock : LockFile) (mode : ℕ)
    (prior : Text → Option (List UInt8 × ℕ)) :
    AllOrNothing port lock (.before mode prior)
        ((LockDir.write a port lock).run (.before mode prior)) ↔
      ¬FailsLate a port lock (.before mode prior) := by
  have hprior : ∀ name f, (LockFolder.before mode prior).files name = some f → f.fresh = false := by
    intro name f hf
    obtain ⟨q, -, rfl⟩ := Option.map_eq_some_iff.mp hf
    rfl
  obtain ⟨hmoments, hlast⟩ := write_triple a port lock hprior
    (.before mode prior) (Function.update_eq_self _ _).symm
  generalize (LockDir.write a port lock).run (.before mode prior) = p at hmoments hlast
  cases hvalue : p.value with
  | ok guard =>
      rw [hvalue] at hlast
      refine iff_of_true ⟨hmoments, fun _ _ => hlast.1, fun e he => ?_⟩ hlast.2
      rw [hvalue] at he
      cases he
  | error e =>
      rw [hvalue] at hlast
      obtain ⟨x, hx, hlate⟩ := hlast
      rw [← hlate, ← hx.leaks_iff hprior]
      refine ⟨fun h => (h.err e hvalue).2, fun h => ⟨hmoments, fun guard hguard => ?_, ?_⟩⟩
      · rw [hvalue] at hguard
        cases hguard
      · exact fun _ _ => ⟨hx.sameLock, h⟩

end

/-- Everything succeeds but the rename. -/
def renameRefused : WriteAnswers where
  createDirAll := .ok ()
  setPermissions := .ok ()
  removeStale := true
  openNew := .ok ()
  writeAll := .ok ()
  syncAll := .ok ()
  rename := .error (.os 13)

/-- **A rename that is refused leaves the token.**  The directory is empty before the call. -/
theorem write_leaves_token :
    let lock := LockFile.forThisProcess 7 "/p".toList "5f0c".toList
    let d := LockFolder.before 0o700 fun _ => none
    let p := (LockDir.write renameRefused 4001 lock).run d
    p.value = .error (.os 13) ∧
      p.last.files (tmpFileName 4001) = some ⟨lock.toVec, 0o600, true⟩ ∧
      ¬AllOrNothing 4001 lock d p := by
  intro lock d p
  have hvalue : p.value = .error (.os 13) := by decide +kernel
  have hfile : p.last.files (tmpFileName 4001) = some ⟨lock.toVec, 0o600, true⟩ := by
    decide +kernel
  refine ⟨hvalue, hfile, fun h => (h.err _ hvalue).2 ?_⟩
  exact ⟨tmpFileName 4001, _, hfile, rfl, writtenToken_infix_toVec lock⟩

end Connect
