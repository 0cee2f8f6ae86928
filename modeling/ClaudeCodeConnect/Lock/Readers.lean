import ClaudeCodeConnect.Lock.Finding
import ClaudeCodeConnect.Lock.Undisturbed
import ClaudeCodeConnect.Lock.Write

/-!
# Reading locks while one is written

`all_locks` reads one file after the other, of each the contents and then the modification time,
and a companion may be writing its lock meanwhile.

* `Reader`, `hostReading` -- a reader that reads each file at two moments of its own, and the host
  it has read.
* `LockDir.writeTmp`, `write_eq` -- the call up to the rename, and the call as that and the rename.
* `write_moments`, `write_turns` -- up to the rename the locks are the old ones; from it on they are
  the old ones with the new one.
* `write_seen_at_once` -- **no reader sees a lock half written**, nor one whose writing fails; but
  it may take a lock that is replaced for as new as the one that replaces it.
* `write_follows` -- the lock machine takes the call in two steps.
-/

namespace Connect

open Interruptible

variable {parse : Text → Option RawLock}

/-! ## What is read

`parse` is `serde_json::from_str::<RawLock>`.  The file system tells when a file was last written:
another file under the same name, as a rename puts there, may have another time. -/

/-- What `serde_json` makes of a file, if there is one. -/
def LockFolder.raw? (parse : Text → Option RawLock) (d : LockFolder) (name : Text) :
    Option RawLock :=
  ((d.files name).bind fun f => Text.fromUtf8 f.contents).bind parse

/-- When the file of a name was last written, if there is one and it can be told. -/
def LockFolder.modified? (modified : Text → FolderFile → Option ℤ) (d : LockFolder) (name : Text) :
    Option ℤ :=
  (d.files name).bind (modified name)

/-- A reader: the contents of a file are read as it stands at one moment, and the modification time
as it stands at another. -/
structure Reader where
  contents : Text → LockFolder
  dated : Text → LockFolder

/-- A reader that takes no time. -/
def Reader.still (d : LockFolder) : Reader := ⟨fun _ => d, fun _ => d⟩

/-- It reads at these moments, which are in order, and of no file the modification time before the
contents. -/
def Reader.Within (reader : Reader) (moments : List LockFolder) : Prop :=
  ∀ name, ∃ i j : ℕ, i ≤ j ∧ moments[i]? = some (reader.contents name) ∧
    moments[j]? = some (reader.dated name)

/-- What it has read under a name. -/
def Reader.entry (parse : Text → Option RawLock) (modified : Text → FolderFile → Option ℤ)
    (reader : Reader) (name : Text) : DirEntry :=
  ⟨name, (reader.contents name).raw? parse name, (reader.dated name).modified? modified name⟩

/-- The host of a reader for which `read_dir` lists these names. -/
def hostReading (parse : Text → Option RawLock) (reader : Reader) (names : List Text)
    (modified : Text → FolderFile → Option ℤ) (canonicalize : Text → Option Text)
    (kill : UInt32 → Bool) : Host where
  readDir := some (names.map (reader.entry parse modified))
  canonicalize := canonicalize
  kill := kill

/-- The locks are the same files in both: what stands under other names does not matter. -/
def SameLocks (d t : LockFolder) : Prop :=
  ∀ name, lockPort? name ≠ none → t.files name = d.files name

/-- The directory with the lock in place. -/
def LockFolder.published (d : LockFolder) (port : UInt16) (lock : LockFile) : LockFolder :=
  d.put (lockFileName port) (some ⟨lock.toVec, 0o600, true⟩)

/-- The lock of an entry, with its time, if it may answer. -/
def Host.answers (h : Host) (path : Text) (entry : DirEntry) : Option (ℤ × IdeLock) :=
  (datedLock? entry).filter fun d =>
    h.isLive d.2 && d.2.workspaceFolders.any (h.covers (h.canonical path))

/-- Only the locks that may answer matter. -/
lemma lockFor_congr {h h' : Host} {names : List Text} {entry entry' : Text → DirEntry} {path : Text}
    (hdir : h.readDir = some (names.map entry)) (hdir' : h'.readDir = some (names.map entry'))
    (hcanonicalize : h.canonicalize = h'.canonicalize)
    (hentry : ∀ name, h.answers path (entry name) = h'.answers path (entry' name)) :
    h.lockFor path = h'.lockFor path := by
  have hcanonical : h.canonical = h'.canonical := by
    funext folder
    rw [Host.canonical, Host.canonical, hcanonicalize]
  have hfilter {h : Host} {entry : Text → DirEntry} (hdir : h.readDir = some (names.map entry)) :
      h.datedLocks.filter (fun d => h.isLive d.2 &&
        d.2.workspaceFolders.any (h.covers (h.canonical path)))
        = names.filterMap fun name => h.answers path (entry name) := by
    rw [Host.datedLocks, hdir, Option.getD_some, List.filterMap_map, List.filter_filterMap]
    rfl
  rw [h.lockFor_eq_newest, h'.lockFor_eq_newest, hfilter hdir, hfilter hdir', hcanonical]
  simp only [hentry]

/-- Two readers that have read the same of a file. -/
lemma answers_entry_congr {reader reader' : Reader} {name : Text} (h : Host) (path : Text)
    (modified : Text → FolderFile → Option ℤ)
    (hcontents : lockPort? name ≠ none →
      (reader.contents name).files name = (reader'.contents name).files name)
    (hdated : lockPort? name ≠ none →
      (reader.dated name).files name = (reader'.dated name).files name) :
    h.answers path (reader.entry parse modified name)
      = h.answers path (reader'.entry parse modified name) := by
  by_cases hname : lockPort? name = none
  · simp [Host.answers, datedLock?, Reader.entry, hname]
  · simp only [Reader.entry, LockFolder.raw?, LockFolder.modified?, hcontents hname, hdated hname]

/-- A lock that is not live, or none, does not answer, whenever it was written. -/
lemma answers_eq_none {h : Host} {path name : Text} {port : UInt16} {raw : Option RawLock}
    (hport : lockPort? name = some port)
    (hraw : ∀ found, raw = some found → h.isLive (found.ideLock port) = false)
    (modified : Option ℤ) : h.answers path ⟨name, raw, modified⟩ = none := by
  cases raw with
  | none => simp [Host.answers, datedLock?, hport]
  | some found =>
      have hdated : datedLock? ⟨name, some found, modified⟩
          = some (modified.getD unixEpoch, found.ideLock port) := by
        simp [datedLock?, hport, RawLock.ideLock]
      rw [Host.answers, hdated, Option.filter_some, hraw found rfl]
      rfl

/-! ## Up to the rename

Before the rename only the temporary name is written to, which is no lock's; whatever fails there,
the locks are as before. -/

section Write

variable {a : WriteAnswers} {port : UInt16} {lock : LockFile} {d : LockFolder}

/-- The call up to the rename: everything but the last step. -/
def LockDir.writeTmp (a : WriteAnswers) (port : UInt16) (lock : LockFile) : Writing Unit := do
  LockDir.prepare a
  liftM (stepIf a.removeStale (·.put (tmpFileName port) none) : Interruptible LockFolder Unit)
  LockDir.createNew a (tmpFileName port)
  LockDir.writeAll a (tmpFileName port) lock.toVec
  liftExcept a.syncAll
  liftExcept a.rename

lemma write_eq (a : WriteAnswers) (port : UInt16) (lock : LockFile) :
    LockDir.write a port lock = (do
      LockDir.writeTmp a port lock
      change (·.rename (tmpFileName port) (lockFileName port))
      return ⟨lockFileName port⟩) := by
  simp only [LockDir.write, LockDir.writeTmp, bind_assoc]

/-- As before the call, but for what is under the temporary name. -/
def Untouched (port : UInt16) (d t : LockFolder) : Prop := ∃ x, AtTmp port d x t

lemma Untouched.put {t : LockFolder} (h : Untouched port d t) (x : Option FolderFile) :
    Untouched port d (t.put (tmpFileName port) x) :=
  h.elim fun _ ht => ⟨x, ht.put⟩

lemma Untouched.sameLocks {t : LockFolder} (h : Untouched port d t) : SameLocks d t := by
  obtain ⟨x, ht⟩ := h
  intro name hname
  have hne : name ≠ tmpFileName port := by
    rintro rfl
    exact hname (lockPort?_tmpFileName port)
  rw [ht, Function.update_of_ne hne]

/-- A computation on which the directory stays untouched, whether it fails or not. -/
def Leaves (port : UInt16) (d : LockFolder) (c : Writing Unit) : Prop :=
  Triple (Untouched port d) c.run (Untouched port d)
    (onResult (fun _ => Untouched port d) fun _ => Untouched port d)

lemma Leaves.bind {c : Writing Unit} {f : Unit → Writing Unit} (hc : Leaves port d c)
    (hf : ∀ u, Leaves port d (f u)) : Leaves port d (c >>= f) :=
  triple_bindExcept (fun _ => Untouched port d) hc hf

lemma leaves_liftExcept (r : Except FsError Unit) : Leaves port d (liftExcept r) :=
  triple_liftExcept (fun _ _ _ ht => ht) fun _ _ _ ht => ht

lemma leaves_change {f : LockFolder → LockFolder}
    (h : ∀ t, Untouched port d t → Untouched port d (f t)) : Leaves port d (change f) :=
  triple_change fun t ht => ⟨h t ht, h t ht⟩

lemma leaves_prepare (a : WriteAnswers) : Leaves port d (LockDir.prepare a) :=
  (leaves_liftExcept _).bind fun _ => (leaves_liftExcept _).bind fun _ =>
    leaves_change fun _ ht => ht

lemma leaves_createNew (a : WriteAnswers) :
    Leaves port d (LockDir.createNew a (tmpFileName port)) := by
  refine triple_bindExcept (fun _ => Untouched port d)
    (triple_lift (triple_mono triple_read (fun _ h => h) (fun _ h => h) fun _ _ h => h.2))
    fun t' => ?_
  by_cases hthere : (t'.files (tmpFileName port)).isSome = true
  · rw [if_pos hthere]
    exact triple_throw fun _ ht => ht
  · rw [if_neg hthere]
    exact (leaves_liftExcept _).bind fun _ => leaves_change fun _ ht => ht.put _

lemma leaves_appendAll (bytes : List UInt8) :
    Leaves port d (liftM (LockDir.appendAll (tmpFileName port) bytes)) :=
  triple_lift (triple_forM (fun _ => Untouched port d) fun _ _ _ _ =>
    triple_step fun _ ht => ⟨ht.put _, ht.put _⟩)

lemma leaves_writeAll (a : WriteAnswers) (json : List UInt8) :
    Leaves port d (LockDir.writeAll a (tmpFileName port) json) := by
  rw [LockDir.writeAll]
  cases a.writeAll with
  | ok u => exact leaves_appendAll json
  | error q =>
      obtain ⟨written, e⟩ := q
      exact (leaves_appendAll _).bind fun _ => triple_throw fun _ ht => ht

/-- **Up to the rename nothing is to be seen.** -/
lemma leaves_writeTmp (a : WriteAnswers) (port : UInt16) (lock : LockFile) (d : LockFolder) :
    Leaves port d (LockDir.writeTmp a port lock) := by
  have hstale : Leaves port d (liftM
      (stepIf a.removeStale (·.put (tmpFileName port) none) : Interruptible LockFolder Unit)) :=
    triple_lift (triple_stepIf (fun _ _ ht => ⟨ht.put none, ht.put none⟩) fun _ _ ht => ht)
  exact (leaves_prepare a).bind fun _ => hstale.bind fun _ => (leaves_createNew a).bind fun _ =>
    (leaves_writeAll a lock.toVec).bind fun _ => (leaves_liftExcept _).bind fun _ =>
      leaves_liftExcept _

/-- If it gets as far as the rename, the body is under the temporary name, whole. -/
lemma writeTmp_triple (a : WriteAnswers) (port : UInt16) (lock : LockFile) (d : LockFolder) :
    Triple (AtTmp port d (d.files (tmpFileName port))) (LockDir.writeTmp a port lock).run
      (fun _ => True) (onResult (fun _ => AtTmp port d (tmpFile lock.toVec)) fun _ _ => True) := by
  let x : Option FolderFile := if a.removeStale then none else d.files (tmpFileName port)
  refine triple_bindExcept (fun _ => AtTmp port d (d.files (tmpFileName port)))
    (triple_mono (prepare_triple _) (fun _ h => h) (fun t (_ : Whole port lock d t) => trivial)
      (onResult_mono (fun _ _ h => h.1) fun _ _ _ => trivial)) fun _ => ?_
  refine triple_bindExcept (fun _ => AtTmp port d x)
    (triple_lift (triple_stepIf (fun hremove t ht => ?_) fun hremove t ht => ?_)) fun _ => ?_
  · have hnone : x = none := by simp [x, hremove]
    exact ⟨trivial, hnone ▸ ht.put⟩
  · have hkept : x = d.files (tmpFileName port) := by simp [x, hremove]
    exact hkept ▸ ht
  refine triple_bindExcept (fun _ => AtTmp port d (tmpFile []))
    (triple_mono (createNew_triple x) (fun _ h => h) (fun t (_ : Whole port lock d t) => trivial)
      (onResult_mono (fun _ _ h => h.1) fun _ _ _ => trivial)) fun _ => ?_
  refine triple_bindExcept (fun _ => AtTmp port d (tmpFile lock.toVec))
    (triple_mono (writeAll_triple lock.toVec) (fun _ h => h)
      (fun t (_ : Whole port lock d t) => trivial)
      (onResult_mono (fun _ _ h => h.1) fun _ _ _ => trivial)) fun _ => ?_
  refine triple_bindExcept (fun _ => AtTmp port d (tmpFile lock.toVec))
    (triple_liftExcept (fun _ _ _ ht => ht) fun _ _ _ _ => trivial) fun _ => ?_
  exact triple_liftExcept (fun _ _ _ ht => ht) fun _ _ _ _ => trivial

/-! ## The moments of a write

The states of the directory during the call, in order: first the old locks, and from some moment on
the old ones with the new one. -/

lemma holds_published (d : LockFolder) (port : UInt16) (lock : LockFile) :
    Holds port lock (d.published port lock) :=
  ⟨_, Function.update_self _ _ _, rfl⟩

lemma published_files_of_ne {name : Text} (h : name ≠ lockFileName port) :
    (d.published port lock).files name = d.files name :=
  Function.update_of_ne h _ _

/-- The rename publishes what is under the temporary name, and nothing else. -/
lemma AtTmp.rename {t : LockFolder} (h : AtTmp port d (tmpFile lock.toVec) t) :
    SameLocks (d.published port lock) (t.rename (tmpFileName port) (lockFileName port)) := by
  intro name hname
  by_cases hlock : name = lockFileName port
  · subst hlock
    simp only [LockFolder.rename, LockFolder.published, LockFolder.put, Function.update_self, h.tmp]
    rfl
  · have htmp : name ≠ tmpFileName port := by
      rintro rfl
      exact hname (lockPort?_tmpFileName port)
    have hsame : SameLocks d t := Untouched.sameLocks ⟨_, h⟩
    rw [published_files_of_ne hlock, ← hsame name hname]
    simp only [LockFolder.rename, LockFolder.put, Function.update_of_ne hlock,
      Function.update_of_ne htmp]

/-- **The moments of a write.**  Up to the rename the locks are the old ones; with it, which is the
last step, the call succeeds and the new lock is among them. -/
theorem write_moments (a : WriteAnswers) (port : UInt16) (lock : LockFile) (mode : ℕ)
    (prior : Text → Option (List UInt8 × ℕ)) :
    let d := LockFolder.before mode prior
    let p := (LockDir.write a port lock).run d
    ∃ early, (∀ t ∈ early, SameLocks d t) ∧
      ((p.moments = early ∧ (∃ e, p.value = .error e) ∧ SameLocks d p.last) ∨
        (p.moments = early ++ [p.last] ∧ (∃ guard, p.value = .ok guard) ∧
          SameLocks (d.published port lock) p.last)) := by
  intro d p
  have hat : AtTmp port d (d.files (tmpFileName port)) d := (Function.update_eq_self _ _).symm
  obtain ⟨hearly, hlast⟩ := leaves_writeTmp a port lock d d ⟨_, hat⟩
  have hbody := (writeTmp_triple a port lock d d hat).2
  have hp : p = ((LockDir.writeTmp a port lock >>= fun _ => do
      change (·.rename (tmpFileName port) (lockFileName port))
      return ⟨lockFileName port⟩ : Writing LockGuard).run) d := by
    show (LockDir.write a port lock).run d = _
    rw [write_eq]
  refine ⟨_, fun t ht => (hearly t ht).sameLocks, ?_⟩
  rw [ExceptT.run_bind, bind_apply] at hp
  cases hvalue : ((LockDir.writeTmp a port lock).run d).value with
  | error e =>
      rw [hvalue] at hp hlast
      refine Or.inl ⟨?_, ⟨e, ?_⟩, ?_⟩
      · rw [hp]
        exact List.append_nil _
      · rw [hp]
        rfl
      · rw [hp]
        exact Untouched.sameLocks hlast
  | ok u =>
      rw [hvalue] at hp hbody
      have hok : p.value = .ok ⟨lockFileName port⟩ := by
        rw [hp]
        rfl
      have hrenamed : p.last = ((LockDir.writeTmp a port lock).run d).last.rename
          (tmpFileName port) (lockFileName port) := by
        rw [hp]
        rfl
      refine Or.inr ⟨?_, ⟨_, hok⟩, ?_⟩
      · rw [hrenamed, hp]
        rfl
      · rw [hrenamed]
        exact AtTmp.rename hbody

/-- At the rename the directory turns from the one into the other, for good. -/
lemma write_turns (a : WriteAnswers) (port : UInt16) (lock : LockFile) (mode : ℕ)
    (prior : Text → Option (List UInt8 × ℕ)) :
    let d := LockFolder.before mode prior
    let p := (LockDir.write a port lock).run d
    ∃ k, ∀ (i : ℕ) t, (d :: p.moments ++ [p.last])[i]? = some t → (i < k → SameLocks d t) ∧
      (k ≤ i → (∃ guard, p.value = .ok guard) ∧ SameLocks (d.published port lock) t) := by
  intro d p
  obtain ⟨early, hearly, hlate⟩ := write_moments a port lock mode prior
  have hbefore : ∀ t ∈ d :: early, SameLocks d t := by
    intro t ht
    rcases List.mem_cons.mp ht with rfl | ht
    · exact fun _ _ => rfl
    · exact hearly t ht
  rcases hlate with ⟨hmoments, -, hsame⟩ | ⟨hmoments, hok, hsame⟩
  · refine ⟨(d :: p.moments ++ [p.last]).length, fun i t ht => ⟨fun _ => ?_, fun hi => ?_⟩⟩
    · rcases List.mem_append.mp (List.mem_of_getElem? ht) with ht | ht
      · exact hbefore t (by rwa [hmoments] at ht)
      · exact List.mem_singleton.mp ht ▸ hsame
    · rw [List.getElem?_eq_none hi] at ht
      cases ht
  · have hall : d :: p.moments ++ [p.last] = (d :: early) ++ [p.last, p.last] := by
      simp [p, d, hmoments]
    refine ⟨(d :: early).length, fun i t ht => ⟨fun hi => ?_, fun hi => ⟨hok, ?_⟩⟩⟩
    · rw [hall, List.getElem?_append_left hi] at ht
      exact hbefore t (List.mem_of_getElem? ht)
    · rw [hall, List.getElem?_append_right hi] at ht
      have hlast : t = p.last := by simpa using List.mem_of_getElem? ht
      exact hlast ▸ hsame

/-! ## What a reader finds

A reader that is slow reads each file at its own moment.  Only the file of the new lock can tell the
moments apart, so its answer is one of few. -/

/-- The answer depends on what the reader has read that may answer. -/
lemma lockFor_reading {names : List Text} {modified : Text → FolderFile → Option ℤ}
    {canonicalize : Text → Option Text} {kill : UInt32 → Bool} {path : Text}
    {reader reader' : Reader}
    (h : ∀ (host : Host) (name : Text), host.kill = kill →
      host.answers path (reader.entry parse modified name)
        = host.answers path (reader'.entry parse modified name)) :
    (hostReading parse reader names modified canonicalize kill).lockFor path
      = (hostReading parse reader' names modified canonicalize kill).lockFor path :=
  lockFor_congr rfl rfl rfl fun name => h _ name rfl

/-- A reader that has read, under the name of the lock, what stands there before the call or with
the lock in place, and what stands elsewhere in both. -/
lemma lockFor_of_read (port : UInt16) (lock : LockFile) {names : List Text}
    {modified : Text → FolderFile → Option ℤ} {canonicalize : Text → Option Text}
    {kill : UInt32 → Bool} {path : Text} {reader : Reader} {x y : LockFolder}
    (hx : x = d ∨ x = d.published port lock) (hy : y = d ∨ y = d.published port lock)
    (hothers : ∀ name, name ≠ lockFileName port → lockPort? name ≠ none →
      (reader.contents name).files name = d.files name ∧
        (reader.dated name).files name = d.files name)
    (hcontents : (reader.contents (lockFileName port)).files (lockFileName port)
      = x.files (lockFileName port))
    (hdated : (reader.dated (lockFileName port)).files (lockFileName port)
      = y.files (lockFileName port)) :
    (hostReading parse reader names modified canonicalize kill).lockFor path
      = (hostReading parse ⟨fun _ => x, fun _ => y⟩ names modified canonicalize kill).lockFor
          path := by
  have hsame {x : LockFolder} (hx : x = d ∨ x = d.published port lock) {name : Text}
      (hne : name ≠ lockFileName port) : x.files name = d.files name := by
    rcases hx with rfl | rfl
    · rfl
    · exact published_files_of_ne hne
  refine lockFor_reading fun host name _ => ?_
  by_cases hne : name = lockFileName port
  · subst hne
    exact answers_entry_congr host path modified (fun _ => hcontents) fun _ => hdated
  · refine answers_entry_congr host path modified (fun hname => ?_) fun hname => ?_
    · exact (hothers name hne hname).1.trans (hsame hx hne).symm
    · exact (hothers name hne hname).2.trans (hsame hy hne).symm

/-- When a lock was written makes no difference unless it is live. -/
lemma lockFor_redated (names : List Text) (modified : Text → FolderFile → Option ℤ)
    (canonicalize : Text → Option Text) (kill : UInt32 → Bool) (path : Text) :
    let host := fun reader => hostReading parse reader names modified canonicalize kill
    let redated := host ⟨fun _ => d, fun _ => d.published port lock⟩
    redated.lockFor path = (host (.still d)).lockFor path ∨
      ∃ raw, d.raw? parse (lockFileName port) = some raw ∧
        redated.isLive (raw.ideLock port) = true := by
  intro host redated
  by_cases hlive : ∃ raw, d.raw? parse (lockFileName port) = some raw ∧
      redated.isLive (raw.ideLock port) = true
  · exact Or.inr hlive
  refine Or.inl (lockFor_reading fun h name hkill => ?_)
  by_cases hne : name = lockFileName port
  · subst hne
    have hdead : ∀ raw, d.raw? parse (lockFileName port) = some raw →
        h.isLive (raw.ideLock port) = false := by
      intro raw hraw
      have hraw : ¬redated.isLive (raw.ideLock port) = true := fun hl => hlive ⟨raw, hraw, hl⟩
      rw [Host.isLive, Host.pidIsAlive, hkill]
      exact Bool.not_eq_true _ ▸ hraw
    have hnone (m : Option ℤ) :
        h.answers path ⟨lockFileName port, d.raw? parse (lockFileName port), m⟩ = none :=
      answers_eq_none (lockPort?_lockFileName port) hdead m
    exact (hnone _).trans (hnone _).symm
  · exact answers_entry_congr h path modified (fun _ => rfl) fun _ => published_files_of_ne hne

/-- A reader has read all of the old lock, or all of the new one, or the old contents and then the
new time; and the new lock it sees only if the call returns `Ok`. -/
lemma reader_turns (a : WriteAnswers) (port : UInt16) (lock : LockFile) (mode : ℕ)
    (prior : Text → Option (List UInt8 × ℕ)) (names : List Text)
    (modified : Text → FolderFile → Option ℤ) (canonicalize : Text → Option Text)
    (kill : UInt32 → Bool) (path : Text) (reader : Reader) :
    let d := LockFolder.before mode prior
    let p := (LockDir.write a port lock).run d
    let host := fun reader => hostReading parse reader names modified canonicalize kill
    reader.Within (d :: p.moments ++ [p.last]) →
      (host reader).lockFor path = (host (.still d)).lockFor path ∨
        (∃ guard, p.value = .ok guard) ∧
          ((host reader).lockFor path = (host (.still (d.published port lock))).lockFor path ∨
            (host reader).lockFor path
              = (host ⟨fun _ => d, fun _ => d.published port lock⟩).lockFor path) := by
  intro d p host hreader
  obtain ⟨k, hturn⟩ := write_turns a port lock mode prior
  have hlock : lockPort? (lockFileName port) ≠ none := by simp [lockPort?_lockFileName]
  -- the lock is all there is to tell the moments apart
  have hothers : ∀ (i : ℕ) t, (d :: p.moments ++ [p.last])[i]? = some t → ∀ name,
      name ≠ lockFileName port → lockPort? name ≠ none → t.files name = d.files name := by
    intro i t ht name hne hname
    rcases Nat.lt_or_ge i k with hi | hi
    · exact (hturn i t ht).1 hi name hname
    · exact ((hturn i t ht).2 hi).2 name hname |>.trans (published_files_of_ne hne)
  have hother : ∀ name, name ≠ lockFileName port → lockPort? name ≠ none →
      (reader.contents name).files name = d.files name ∧
        (reader.dated name).files name = d.files name := by
    intro name hne hname
    obtain ⟨i, j, -, hi, hj⟩ := hreader name
    exact ⟨hothers i _ hi name hne hname, hothers j _ hj name hne hname⟩
  obtain ⟨i, j, hij, hi, hj⟩ := hreader (lockFileName port)
  rcases Nat.lt_or_ge j k with hjk | hjk
  · have hik : i < k := Nat.lt_of_le_of_lt hij hjk
    exact Or.inl (lockFor_of_read port lock (.inl rfl) (.inl rfl) hother
      ((hturn i _ hi).1 hik _ hlock) ((hturn j _ hj).1 hjk _ hlock))
  · obtain ⟨hok, hnew⟩ := (hturn j _ hj).2 hjk
    refine Or.inr ⟨hok, ?_⟩
    rcases Nat.lt_or_ge i k with hik | hik
    · exact Or.inr (lockFor_of_read port lock (.inl rfl) (.inr rfl) hother
        ((hturn i _ hi).1 hik _ hlock) (hnew _ hlock))
    · exact Or.inl (lockFor_of_read port lock (.inr rfl) (.inr rfl) hother
        (((hturn i _ hi).2 hik).2 _ hlock) (hnew _ hlock))

/-- With a lock in place, it is found, or one of those under other names. -/
lemma found_published (hparse : parse lock.toJson = some lock.toRawLock) {names : List Text}
    {modified : Text → FolderFile → Option ℤ} {canonicalize : Text → Option Text}
    {kill : UInt32 → Bool} {path : Text} {found : IdeLock}
    (hfound : (hostReading parse (.still (d.published port lock)) names modified canonicalize
      kill).lockFor path = .ok found) :
    found = lock.toRawLock.ideLock port ∨
      ∃ name ∈ names, name ≠ lockFileName port ∧ ∃ port' raw, lockPort? name = some port' ∧
        d.raw? parse name = some raw ∧ found = raw.ideLock port' := by
  obtain ⟨hmem, -⟩ := mem_of_lockFor hfound
  obtain ⟨name, hname, port', raw, hport, hraw, rfl⟩ := (mem_allLocks_listed rfl).mp hmem
  by_cases hne : name = lockFileName port
  · subst hne
    rw [lockPort?_lockFileName] at hport
    cases hport
    have hread := (holds_published d port lock).reads hparse
    cases hraw.symm.trans hread
    exact Or.inl rfl
  · refine Or.inr ⟨name, hname, hne, port', raw, hport, ?_, rfl⟩
    rw [← hraw]
    simp only [LockFolder.raw?, Reader.still, published_files_of_ne hne]

/-- **A lock is seen whole or not at all.**  `parse` reads back what was written.  While a lock is
written, whichever step fails, and afterwards, `lock_for` may read the contents of each file of the
directory at a moment of its own, and the modification time then or later:

1. it answers as on the directory before the call; or as on that with the lock in place, and then
   the call returns `Ok`; or, if the lock that is replaced is ours too and its process runs, as on
   the directory before the call with that lock as new as the one that replaces it;
2. when the call has returned `Ok`, it answers as with the lock in place;
3. with the lock in place, it finds the lock or one that was there under another name; and some lock
   for every path beneath a folder of the lock, if the lock is a live companion's and is listed. -/
theorem write_seen_at_once (a : WriteAnswers) (port : UInt16) (lock : LockFile) (mode : ℕ)
    (prior : Text → Option (List UInt8 × ℕ)) (parse : Text → Option RawLock)
    (hparse : parse lock.toJson = some lock.toRawLock) (names : List Text)
    (modified : Text → FolderFile → Option ℤ) (canonicalize : Text → Option Text)
    (kill : UInt32 → Bool) (path : Text) :
    let d := LockFolder.before mode prior
    let p := (LockDir.write a port lock).run d
    let host := fun reader => hostReading parse reader names modified canonicalize kill
    let placed := host (.still (d.published port lock))
    (∀ reader : Reader, reader.Within (d :: p.moments ++ [p.last]) →
      (host reader).lockFor path = (host (.still d)).lockFor path ∨
        (∃ guard, p.value = .ok guard) ∧
          ((host reader).lockFor path = placed.lockFor path ∨
            (∃ raw, d.raw? parse (lockFileName port) = some raw ∧
                placed.isLive (raw.ideLock port) = true) ∧
              (host reader).lockFor path
                = (host ⟨fun _ => d, fun _ => d.published port lock⟩).lockFor path)) ∧
    (∀ guard, p.value = .ok guard → (host (.still p.last)).lockFor path = placed.lockFor path) ∧
    (∀ found, placed.lockFor path = .ok found → found = lock.toRawLock.ideLock port ∨
      ∃ name ∈ names, name ≠ lockFileName port ∧ ∃ port' raw, lockPort? name = some port' ∧
        d.raw? parse name = some raw ∧ found = raw.ideLock port') ∧
    (placed.isLive (lock.toRawLock.ideLock port) = true → lockFileName port ∈ names →
      (∃ folder ∈ lock.workspaceFolders,
        startsWith (placed.canonical path) (placed.canonical folder) = true) →
      ∃ found, placed.lockFor path = .ok found) := by
  intro d p host placed
  refine ⟨fun reader hreader => ?_, fun guard hguard => ?_, fun found => found_published hparse, ?_⟩
  · rcases reader_turns a port lock mode prior names modified canonicalize kill path reader hreader
      with hold | ⟨hok, hnew | hredated⟩
    · exact Or.inl hold
    · exact Or.inr ⟨hok, Or.inl hnew⟩
    · rcases lockFor_redated names modified canonicalize kill path with hsame | hlive
      · exact Or.inl (hredated.trans hsame)
      · exact Or.inr ⟨hok, Or.inr ⟨hlive, hredated⟩⟩
  · obtain ⟨-, -, ⟨-, ⟨e, he⟩, -⟩ | ⟨-, -, hsame⟩⟩ := write_moments a port lock mode prior
    · cases hguard.symm.trans he
    · exact lockFor_reading fun h name _ =>
        answers_entry_congr h path modified (hsame name) (hsame name)
  · rintro hlive hlisted ⟨folder, hfolder, hstarts⟩
    have hread := (holds_published d port lock).reads hparse
    refine exists_lockFor_of_mem ((mem_allLocks_listed rfl).mpr ?_) hlive hfolder hstarts
    exact ⟨_, hlisted, port, _, lockPort?_lockFileName port, hread, rfl⟩

/-- A dead companion's lock is replaced.  Whoever has read the old contents and then the new time
gets the old answer or the new one, and afterwards the new lock is found. -/
theorem write_seen_at_once_replaced :
    let stale := LockFile.forThisProcess 9 "/p".toList "77aa".toList
    let lock := LockFile.forThisProcess 7 "/p".toList "5f0c".toList
    let prior := fun name =>
      if name = lockFileName 4001 then some (stale.toVec, 0o600) else none
    let d := LockFolder.before 0o700 prior
    let p := (LockDir.write { renameRefused with rename := .ok () } 4001 lock).run d
    let host := fun reader => hostReading RawLock.fromStr reader [lockFileName 4001]
      (fun _ f => some (if f.fresh then 2 else 1)) some (· == 7)
    let answer := (host ⟨fun _ => d, fun _ => p.last⟩).lockFor "/p/q".toList
    (answer = (host (.still d)).lockFor "/p/q".toList ∨
      answer = .ok (lock.toRawLock.ideLock 4001)) ∧
    (host (.still p.last)).lockFor "/p/q".toList = .ok (lock.toRawLock.ideLock 4001) := by
  intro stale lock prior d p host answer
  obtain ⟨hseen, hafter, hsound, hcomplete⟩ := write_seen_at_once
    { renameRefused with rename := .ok () } 4001 lock 0o700 prior RawLock.fromStr
    (ofJson_toJson lock)
    [lockFileName 4001] (fun _ f => some (if f.fresh then 2 else 1)) some (· == 7) "/p/q".toList
  have hok : p.value = .ok ⟨lockFileName 4001⟩ := by decide +kernel
  have hwithin : Reader.Within ⟨fun _ => d, fun _ => p.last⟩ (d :: p.moments ++ [p.last]) :=
    fun _ => ⟨0, (d :: p.moments).length, Nat.zero_le _, rfl, by simp⟩
  have hplaced : (host (.still (d.published 4001 lock))).lockFor "/p/q".toList
      = .ok (lock.toRawLock.ideLock 4001) := by
    obtain ⟨found, hfound⟩ := hcomplete (by decide +kernel) (List.mem_singleton_self _)
      ⟨_, List.mem_singleton_self _, by decide +kernel⟩
    rcases hsound found hfound with rfl | ⟨name, hname, hne, -⟩
    · exact hfound
    · exact absurd (List.mem_singleton.mp hname) hne
  have hfile : d.files (lockFileName 4001) = some ⟨stale.toVec, 0o600, false⟩ := by
    simp [d, prior, LockFolder.before]
  have hstale : d.raw? RawLock.fromStr (lockFileName 4001) = some stale.toRawLock :=
    Holds.reads (ofJson_toJson stale) ⟨_, hfile, rfl⟩
  refine ⟨?_, (hafter _ hok).trans hplaced⟩
  rcases hseen _ hwithin with hold | ⟨-, hnew | ⟨⟨raw, hraw, hlive⟩, -⟩⟩
  · exact Or.inl hold
  · exact Or.inr (hnew.trans hplaced)
  · cases hraw.symm.trans hstale
    cases hlive

end Write

/-! ## The lock machine

The machine of many companions has two steps where the call has many: everything up to the rename,
and the rename. -/

section Machine

variable {ι : Type} {s : LockState ι} {i : ι} {d t : LockFolder}

/-- The locks of the state are what is read of this directory. -/
def LockState.Shows (parse : Text → Option RawLock) (s : LockState ι) (d : LockFolder) : Prop :=
  ∀ name, lockPort? name ≠ none → d.raw? parse name = (s.dir name).bind LockEntry.raw

lemma LockState.Shows.same (h : s.Shows parse d) (hsame : SameLocks d t) : s.Shows parse t := by
  intro name hname
  rw [← h name hname, LockFolder.raw?, LockFolder.raw?, hsame name hname]

variable [Fintype ι] [DecidableEq ι]

omit [DecidableEq ι] in
/-- Discovery answers alike on both. -/
theorem LockState.Shows.lockFor_eq (h : s.Shows parse d) (names : List Text)
    (modified : Text → FolderFile → Option ℤ) (canonicalize : Text → Option Text)
    (elsewhere : UInt32 → Bool) (path : Text) :
    let host := s.host names (d.modified? modified) canonicalize elsewhere
    host.lockFor path
      = (hostReading parse (.still d) names modified canonicalize host.kill).lockFor path := by
  intro host
  refine lockFor_congr rfl rfl rfl fun name => ?_
  by_cases hname : lockPort? name = none
  · simp [Host.answers, datedLock?, Reader.entry, hname]
  · rw [← h name hname]
    rfl

/-- **The lock machine takes `write` in two steps**: every moment of the call is shown by the state
before them or by that after them, and so is what it leaves, by whether it fails. -/
theorem write_follows (a : WriteAnswers) {port : UInt16} (authToken : Text) {mode : ℕ}
    {prior : Text → Option (List UInt8 × ℕ)} (hbound : (s.companions i).phase = .bound port)
    (hparse : ∀ lock : LockFile, parse lock.toJson = some lock.toRawLock)
    (hshows : s.Shows parse (.before mode prior)) :
    let lock := LockFile.forThisProcess (s.companions i).pid (s.companions i).worktree authToken
    let p := (LockDir.write a port lock).run (.before mode prior)
    ∃ t, (lockMachine ι).exec s [(i, .writeTmp authToken), (i, .rename)] = some t ∧
      (t.companions i).guard = some port ∧
      (∀ m ∈ p.moments, s.Shows parse m ∨ t.Shows parse m) ∧
      ((∃ e, p.value = .error e) → s.Shows parse p.last) ∧
      ((∃ guard, p.value = .ok guard) → t.Shows parse p.last) := by
  intro lock p
  obtain ⟨early, hearly, hlate⟩ := write_moments a port lock mode prior
  have hsteps : ∃ t, (lockMachine ι).exec s [(i, .writeTmp authToken), (i, .rename)] = some t ∧
      (t.companions i).guard = some port ∧
      t.Shows parse (LockFolder.published (.before mode prior) port lock) := by
    refine ⟨⟨Function.update (Function.update s.dir (tmpFileName port) none) (lockFileName port)
        (some ⟨some lock.toRawLock, some i⟩),
      Function.update s.companions i
        { s.companions i with phase := .serving, guard := some port }⟩, ?_, by simp, ?_⟩
    · simp [Machine.exec, lockMachine, LockState.step, LockState.move, hbound, lock]
    · intro name hname
      have htmp : name ≠ tmpFileName port := by
        rintro rfl
        exact hname (lockPort?_tmpFileName port)
      by_cases hlock : name = lockFileName port
      · subst hlock
        refine ((holds_published _ port lock).reads (hparse lock)).trans ?_
        simp
      · rw [LockFolder.raw?, published_files_of_ne hlock, ← LockFolder.raw?, hshows name hname]
        simp [Function.update_of_ne hlock, Function.update_of_ne htmp]
  obtain ⟨t, hexec, hguard, hpublished⟩ := hsteps
  refine ⟨t, hexec, hguard, ?_⟩
  rcases hlate with ⟨hmoments, ⟨e, he⟩, hsame⟩ | ⟨hmoments, ⟨guard, hguard⟩, hsame⟩
  · refine ⟨fun m hm => Or.inl (hshows.same (hearly m (hmoments ▸ hm))),
      fun _ => hshows.same hsame, ?_⟩
    rintro ⟨guard, hguard⟩
    cases hguard.symm.trans he
  · refine ⟨fun m hm => ?_, ?_, fun _ => hpublished.same hsame⟩
    · rcases List.mem_append.mp (hmoments ▸ hm) with hm | hm
      · exact Or.inl (hshows.same (hearly m hm))
      · exact Or.inr (List.mem_singleton.mp hm ▸ hpublished.same hsame)
    · rintro ⟨e, he⟩
      cases he.symm.trans hguard

end Machine

end Connect
