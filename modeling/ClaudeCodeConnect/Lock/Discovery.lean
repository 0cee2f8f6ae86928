import ClaudeCodeConnect.Core.StableSort
import ClaudeCodeConnect.Lock.LockFile

/-!
# Finding the companion for a directory

`discovery.rs`: every readable lock in the directory, newest first, and the first of them that is
ours, alive and open on a folder that contains the path asked for.

* `allLocks`, `lockFor` -- as the source has them; a `Host` answers what the file system and the
  process table are asked.
* `lockFor_eq_ok_iff` -- the lock returned, among the locks in the order the directory lists them:
  it precedes every other one that covers the path.
* `NearestWins`, `nearestWins_iff` -- no live companion's folder lies strictly between the path and
  the folder the lock was found through, exactly when the newest covering companion is one open on
  the deepest covering folder (`NearestIsNewest`).
-/

namespace Connect

/-! ## Paths

Containment is by components, not by characters: `/p/qr` is not beneath `/p/q`. -/

/-- `Path::components`. Of an absolute path the first one is the root; a `.` counts only at the
    start of a relative one. -/
def components (path : Text) : List Text :=
  let parts := (path.splitOn '/').filter fun part => part ≠ [] ∧ part ≠ ['.']
  if path.head? = some '/' then ['/'] :: parts
  else if (path.splitOn '/').head? = some ['.'] then ['.'] :: parts
  else parts

/-- `Path::starts_with`. -/
def startsWith (path base : Text) : Bool := (components base).isPrefixOf (components path)

/-- One path lies beneath another and is not it. -/
def StrictlyBeneath (path base : Text) : Prop :=
  components base <+: components path ∧ components base ≠ components path

/-- How many components a path has. -/
def depth (path : Text) : ℕ := (components path).length

lemma startsWith_iff {path base : Text} :
    startsWith path base = true ↔ components base <+: components path := List.isPrefixOf_iff_prefix

/-- Of two folders that contain a path one contains the other, so the deeper one lies beneath. -/
lemma strictlyBeneath_iff {target f g : Text} (hf : startsWith target f = true)
    (hg : startsWith target g = true) : StrictlyBeneath g f ↔ depth f < depth g := by
  rw [startsWith_iff] at hf hg
  constructor
  · rintro ⟨hfg, hne⟩
    rcases hfg.length_le.lt_or_eq with hlt | heq
    · exact hlt
    · exact absurd (hfg.eq_of_length heq) hne
  · intro hlt
    rcases List.prefix_or_prefix_of_prefix hf hg with hfg | hgf
    · exact ⟨hfg, fun heq => absurd hlt (by simp [depth, heq])⟩
    · exact absurd hlt (not_lt.mpr hgf.length_le)

/-! ## The locks

`all_locks` and `lock_for`, over what the host answers. -/

/-- `discovery::IdeLock`. -/
structure IdeLock where
  port : UInt16
  authToken : Text
  workspaceFolders : List Text
  ideName : Text
  pid : UInt32
  deriving DecidableEq, Repr

/-- An entry of the lock directory: its name, what `serde_json` makes of its contents if they can be
    read, and its modification time if the file system gives one. -/
structure DirEntry where
  name : Text
  raw : Option RawLock
  modified : Option ℤ
  deriving DecidableEq, Repr

/-- What is asked of the file system and the process table. -/
structure Host where
  /-- `read_dir` of the lock directory. -/
  readDir : Option (List DirEntry)
  canonicalize : Text → Option Text
  /-- `kill(pid, 0) == 0`. -/
  kill : UInt32 → Bool

/-- `UNIX_EPOCH`. -/
def unixEpoch : ℤ := 0

/-- An entry as a lock with its modification time. -/
def datedLock? (entry : DirEntry) : Option (ℤ × IdeLock) := do
  let port ← lockPort? entry.name
  let raw ← entry.raw
  return (entry.modified.getD unixEpoch, {
    port
    authToken := raw.authToken
    workspaceFolders := raw.workspaceFolders
    ideName := raw.ideName
    pid := raw.pid })

namespace Host

variable (h : Host)

/-- The locks as the directory lists them. -/
def datedLocks : List (ℤ × IdeLock) := (h.readDir.getD []).filterMap datedLock?

/-- `all_locks`: every lock in the directory, newest first. -/
def allLocks : List IdeLock := (sortGreatestFirst Prod.fst h.datedLocks).map Prod.snd

/-- `pid_is_alive`. -/
def pidIsAlive (pid : UInt32) : Bool := pid != 0 && h.kill pid

/-- `canonicalize().unwrap_or_else(|_| path.to_path_buf())`. -/
def canonical (path : Text) : Text := (h.canonicalize path).getD path

/-- The lock is ours and not a dead companion's. -/
def isLive (lock : IdeLock) : Bool := lock.ideName == ideName && h.pidIsAlive lock.pid

/-- The directory is the folder itself, or lies beneath it. -/
def covers (target folder : Text) : Bool :=
  components target == components (h.canonical folder) || startsWith target (h.canonical folder)

/-- `lock_for`. -/
def lockFor (path : Text) : Except Text IdeLock :=
  let target := h.canonical path
  match h.allLocks.find? fun lock =>
      h.isLive lock && lock.workspaceFolders.any (h.covers target) with
  | some lock => .ok lock
  | none => .error ("no running companion covers ".toList ++ target ++
      " -- is the project open in Zed?".toList)

/-! ## Which lock is returned

The sort is stable and newest first, so the lock returned is the covering one that precedes every
other covering one. -/

/-- The folder a lock is returned through: the first of its folders that contains the target, in its
    canonical form. -/
def coveringFolder? (target : Text) (lock : IdeLock) : Option Text :=
  if h.isLive lock then (lock.workspaceFolders.map h.canonical).find? (startsWith target) else none

/-- A live lock of ours has this folder, and it contains the target. -/
def Covers (target folder : Text) (lock : IdeLock) : Prop :=
  h.isLive lock = true ∧ folder ∈ lock.workspaceFolders.map h.canonical ∧
    startsWith target folder = true

variable {h}

/-- Being the folder is one way of being beneath it. -/
@[simp] lemma covers_eq (target folder : Text) :
    h.covers target folder = startsWith target (h.canonical folder) := by
  rw [covers]
  by_cases heq : components target = components (h.canonical folder)
  · simp [heq, startsWith]
  · simp [heq]

lemma covers_of_coveringFolder? {target folder : Text} {lock : IdeLock}
    (hfolder : h.coveringFolder? target lock = some folder) : h.Covers target folder lock := by
  rw [coveringFolder?] at hfolder
  split_ifs at hfolder with hlive
  exact ⟨hlive, List.mem_of_find?_eq_some hfolder, List.find?_some hfolder⟩

lemma exists_coveringFolder? {target folder : Text} {lock : IdeLock}
    (hcovers : h.Covers target folder lock) :
    ∃ first, h.coveringFolder? target lock = some first := by
  obtain ⟨hlive, hmem, hstarts⟩ := hcovers
  rw [coveringFolder?, if_pos hlive]
  refine Option.isSome_iff_exists.mp ?_
  rw [List.find?_isSome]
  exact ⟨folder, hmem, hstarts⟩

/-- The test `lock_for` makes of a lock. -/
lemma test_iff {target : Text} {lock : IdeLock} :
    (h.isLive lock && lock.workspaceFolders.any (h.covers target)) = true ↔
      ∃ folder, h.coveringFolder? target lock = some folder := by
  rw [Bool.and_eq_true, List.any_eq_true]
  constructor
  · rintro ⟨hlive, folder, hmem, hcovers⟩
    rw [covers_eq] at hcovers
    exact exists_coveringFolder? ⟨hlive, List.mem_map_of_mem hmem, hcovers⟩
  · rintro ⟨folder, hfolder⟩
    obtain ⟨hlive, hmem, hstarts⟩ := covers_of_coveringFolder? hfolder
    obtain ⟨raw, hraw, rfl⟩ := List.mem_map.mp hmem
    exact ⟨hlive, raw, hraw, by rw [covers_eq]; exact hstarts⟩

/-- **The lock returned is the covering one that precedes every other.** -/
theorem lockFor_eq_ok_iff {path : Text} {lock : IdeLock} :
    h.lockFor path = .ok lock ↔
      ∃ i d, h.datedLocks[i]? = some d ∧ d.2 = lock ∧
        (∃ folder, h.coveringFolder? (h.canonical path) d.2 = some folder) ∧
        ∀ j e, h.datedLocks[j]? = some e →
          (∃ folder, h.coveringFolder? (h.canonical path) e.2 = some folder) → j ≠ i →
            Precedes Prod.fst i d j e := by
  have hok : h.lockFor path = .ok lock ↔ h.allLocks.find? (fun lock =>
      h.isLive lock && lock.workspaceFolders.any (h.covers (h.canonical path))) = some lock := by
    rw [lockFor]
    split
    · next found hfound => rw [hfound, Except.ok.injEq, Option.some.injEq]
    · next hnone => simp [hnone]
  rw [hok, allLocks, List.find?_map, Option.map_eq_some_iff]
  simp only [find?_sortGreatestFirst_iff, Function.comp_apply, test_iff]
  constructor
  · rintro ⟨d, ⟨i, hi, hfolder, hfirst⟩, hd⟩
    exact ⟨i, d, hi, hd, hfolder, hfirst⟩
  · rintro ⟨i, d, hi, hd, hfolder, hfirst⟩
    exact ⟨d, ⟨i, hi, hfolder, hfirst⟩, hd⟩

lemma mem_allLocks {lock : IdeLock} :
    lock ∈ h.allLocks ↔ ∃ (i : ℕ) (d : ℤ × IdeLock), h.datedLocks[i]? = some d ∧ d.2 = lock := by
  rw [allLocks, List.mem_map]
  constructor
  · rintro ⟨d, hd, rfl⟩
    obtain ⟨i, hi⟩ := List.getElem?_of_mem (mem_sortGreatestFirst.mp hd)
    exact ⟨i, d, hi, rfl⟩
  · rintro ⟨i, d, hi, rfl⟩
    exact ⟨d, mem_sortGreatestFirst.mpr (List.mem_of_getElem? hi), rfl⟩

/-! ## The nearest companion

A path may be covered by several companions, one project lying within another.  The newest lock
wins, which is the nearest only if that happens to be newest. -/

variable (h)

/-- No live companion has a folder nearer to the path than the one the lock was found through; so a
    companion open on the path itself is found through a folder that is the path itself. -/
def NearestWins (path : Text) : Prop :=
  ∀ lock folder, h.lockFor path = .ok lock →
    h.coveringFolder? (h.canonical path) lock = some folder →
      (∀ other ∈ h.allLocks, ∀ nearer, h.Covers (h.canonical path) nearer other →
        ¬ StrictlyBeneath nearer folder) ∧
      ((∃ other ∈ h.allLocks, ∃ worktree, h.Covers (h.canonical path) worktree other ∧
        components worktree = components (h.canonical path)) →
          components folder = components (h.canonical path))

/-- The lock would be returned through a folder than which no covering one is deeper. -/
def IsNearest (target : Text) (lock : IdeLock) : Prop :=
  ∃ folder, h.coveringFolder? target lock = some folder ∧
    ∀ other ∈ h.allLocks, ∀ nearer, h.Covers target nearer other → depth nearer ≤ depth folder

/-- The lock covers the target, but would be returned through a folder than which some other
    covering one is deeper. -/
def IsFarther (target : Text) (lock : IdeLock) : Prop :=
  ∃ folder, h.coveringFolder? target lock = some folder ∧
    ∃ other ∈ h.allLocks, ∃ nearer, h.Covers target nearer other ∧ depth folder < depth nearer

/-- If any companion covers the path, a nearest one is newer than every farther one, or as new and
    listed before it. -/
def NearestIsNewest (path : Text) : Prop :=
  (∃ other ∈ h.allLocks, ∃ folder, h.Covers (h.canonical path) folder other) →
    ∃ i d, h.datedLocks[i]? = some d ∧ h.IsNearest (h.canonical path) d.2 ∧
      ∀ j e, h.datedLocks[j]? = some e → h.IsFarther (h.canonical path) e.2 →
        Precedes Prod.fst i d j e

variable {h}

lemma isNearest_or_isFarther {target folder : Text} {lock : IdeLock}
    (hfolder : h.coveringFolder? target lock = some folder) :
    h.IsNearest target lock ∨ h.IsFarther target lock := by
  by_cases hdeep : ∀ other ∈ h.allLocks, ∀ nearer, h.Covers target nearer other →
      depth nearer ≤ depth folder
  · exact Or.inl ⟨folder, hfolder, hdeep⟩
  · push Not at hdeep
    obtain ⟨other, hmem, nearer, hcovers, hlt⟩ := hdeep
    exact Or.inr ⟨folder, hfolder, other, hmem, nearer, hcovers, hlt⟩

lemma IsNearest.not_isFarther {target : Text} {lock : IdeLock} (hnear : h.IsNearest target lock) :
    ¬ h.IsFarther target lock := by
  rintro ⟨folder', hfolder', other, hmem, nearer, hcovers, hlt⟩
  obtain ⟨folder, hfolder, hdeep⟩ := hnear
  rw [hfolder, Option.some.injEq] at hfolder'
  subst hfolder'
  exact absurd hlt (not_lt.mpr (hdeep other hmem nearer hcovers))

/-- Found through a nearest folder, a lock satisfies the law. -/
lemma IsNearest.law {target folder : Text} {lock : IdeLock} (hnear : h.IsNearest target lock)
    (hfolder : h.coveringFolder? target lock = some folder) :
    (∀ other ∈ h.allLocks, ∀ nearer, h.Covers target nearer other →
      ¬ StrictlyBeneath nearer folder) ∧
    ((∃ other ∈ h.allLocks, ∃ worktree, h.Covers target worktree other ∧
      components worktree = components target) → components folder = components target) := by
  obtain ⟨folder', hfolder', hdeep⟩ := hnear
  rw [hfolder, Option.some.injEq] at hfolder'
  subst hfolder'
  have hstarts := (covers_of_coveringFolder? hfolder).2.2
  refine ⟨fun other hmem nearer hcovers hbeneath => ?_, ?_⟩
  · have hlt := (strictlyBeneath_iff hstarts hcovers.2.2).mp hbeneath
    exact absurd hlt (not_lt.mpr (hdeep other hmem nearer hcovers))
  · rintro ⟨other, hmem, worktree, hcovers, heq⟩
    have hle := hdeep other hmem worktree hcovers
    rw [depth, heq] at hle
    exact (startsWith_iff.mp hstarts).eq_of_length_le hle

/-- **The nearest companion wins exactly when a nearest one is newer than every farther one.** -/
theorem nearestWins_iff (path : Text) : h.NearestWins path ↔ h.NearestIsNewest path := by
  constructor
  · rintro hwins ⟨other, hmem, folder, hcovers⟩
    -- something covers the path, so a lock is returned
    obtain ⟨first, hfirst⟩ := exists_coveringFolder? hcovers
    have hsome : (h.allLocks.find? fun lock => h.isLive lock &&
        lock.workspaceFolders.any (h.covers (h.canonical path))).isSome = true := by
      rw [List.find?_isSome]
      exact ⟨other, hmem, test_iff.mpr ⟨first, hfirst⟩⟩
    obtain ⟨lock, hlock⟩ := Option.isSome_iff_exists.mp hsome
    have hreturned : h.lockFor path = .ok lock := by rw [lockFor, hlock]
    obtain ⟨i, d, hi, rfl, ⟨found, hfound⟩, hprecedes⟩ := lockFor_eq_ok_iff.mp hreturned
    have hnear : h.IsNearest (h.canonical path) d.2 := by
      refine ⟨found, hfound, fun other hmem nearer hcovers => ?_⟩
      by_contra hlt
      exact (hwins d.2 found hreturned hfound).1 other hmem nearer hcovers
        ((strictlyBeneath_iff (covers_of_coveringFolder? hfound).2.2 hcovers.2.2).mpr
          (not_le.mp hlt))
    refine ⟨i, d, hi, hnear, fun j e hj hfar => hprecedes j e hj ?_ ?_⟩
    · obtain ⟨folder, hfolder, -⟩ := hfar
      exact ⟨folder, hfolder⟩
    · rintro rfl
      rw [hi, Option.some.injEq] at hj
      exact (hj ▸ hnear).not_isFarther hfar
  · intro hnewest lock folder hreturned hfolder
    obtain ⟨i, d, hi, rfl, -, hprecedes⟩ := lockFor_eq_ok_iff.mp hreturned
    have hmem : d.2 ∈ h.allLocks := mem_allLocks.mpr ⟨i, d, hi, rfl⟩
    obtain ⟨k, e, hk, hnear, hfirst⟩ :=
      hnewest ⟨d.2, hmem, folder, covers_of_coveringFolder? hfolder⟩
    rcases isNearest_or_isFarther hfolder with hd | hfar
    · exact hd.law hfolder
    · -- the returned lock and the nearest one would each precede the other
      exfalso
      have hke := hfirst i d hi hfar
      have hki : k ≠ i := by
        rintro rfl
        rw [hk, Option.some.injEq] at hi
        exact (hi ▸ hnear).not_isFarther hfar
      obtain ⟨found, hfound, -⟩ := hnear
      exact hke.asymm (hprecedes k e hk ⟨found, hfound⟩ hki)

/-- **An enclosing project opened later hides the one asked for.** Two live companions, the older
    one open on `/p/q`, the newer one on `/p`; a path in the first is found through the second. -/
theorem not_forall_nearestWins : ¬ ∀ (h : Host) (path : Text), h.NearestWins path := by
  intro hall
  let inner : RawLock := ⟨["/p/q".toList], [], ideName, 10⟩
  let outer : RawLock := ⟨["/p".toList], [], ideName, 11⟩
  let h : Host := {
    readDir := some [
      ⟨"4001.lock".toList, some inner, some 1⟩, ⟨"4002.lock".toList, some outer, some 2⟩]
    canonicalize := some
    kill := fun _ => true }
  have hwins := hall h "/p/q".toList ⟨4002, [], ["/p".toList], ideName, 11⟩ "/p".toList
    (by decide +kernel) (by decide +kernel)
  have hmem : (⟨4001, [], ["/p/q".toList], ideName, 10⟩ : IdeLock) ∈ h.allLocks := by
    decide +kernel
  refine hwins.1 _ hmem "/p/q".toList ⟨by decide +kernel, by decide +kernel, by decide +kernel⟩ ?_
  exact ⟨by decide +kernel, by decide +kernel⟩

end Host

end Connect
