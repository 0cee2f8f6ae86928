import ClaudeCodeConnect.Core.Machine
import ClaudeCodeConnect.Lock.LockFile
import Mathlib.Data.Fintype.Basic
import Mathlib.Logic.Function.Basic

/-!
# Companions that share a lock directory

Any number of companions, each a process of its own, over one directory: what `Companion::start`,
`LockDir::sweep_dead`, `LockDir::write` and `LockGuard::drop` do to it, one system call a step.  The
directory may hold anything at first: locks of other editors, and of companions long dead.

* `LockState.move`, `LockState.step` -- one step of one companion.
* `Moved`, `moved_of_move` -- **what a step can do**, one constructor for each outcome; everything
  below is by cases on it.
* `LockInv` -- who holds which port, what stands under a temporary name, and what the writer of a
  lock has to do with the process it names.
* `lockInv_step` -- one step.

A process id is that of one live process at a time; `elsewhere` says whether a process that is no
companion has it.
-/

namespace Connect

variable {ι : Type}

/-- A file of the directory: what reading and parsing it gives, and, for the record, which companion
wrote it. -/
structure LockEntry (ι : Type) where
  raw : Option RawLock
  writer : Option ι
  deriving DecidableEq, Repr

/-- Where a companion stands. -/
inductive LockPhase
  /-- Not started. -/
  | idle
  | started
  /-- In the loop of `sweep_dead`, these entries to go. -/
  | sweeping (names : List Text)
  /-- Read a lock of ours under `name`; `pid_is_alive` next. -/
  | judging (name : Text) (raw : RawLock) (names : List Text)
  /-- Judged it dead; `remove_ignoring_missing` next. -/
  | condemned (name : Text) (names : List Text)
  /-- Bound `port`; the temporary file next. -/
  | bound (port : UInt16)
  /-- Wrote it; the rename next. -/
  | wroteTmp (port : UInt16)
  | serving
  /-- Exited, or crashed. -/
  | dead
  deriving DecidableEq, Repr

/-- Between the start of `sweep_dead` and the bind. -/
def LockPhase.inSweep : LockPhase → Bool
  | .started | .sweeping _ | .judging _ _ _ | .condemned _ _ => true
  | _ => false

/-- One companion: its process, and what it holds. -/
structure Companion where
  pid : UInt32
  worktree : Text
  phase : LockPhase
  /-- The port its listener is bound to. -/
  listener : Option UInt16
  /-- The port its `LockGuard` is for. -/
  guard : Option UInt16
  deriving DecidableEq, Repr

/-- What a companion does, one call to the file system or to the process table at a time. -/
inductive LockMove
  /-- The process starts. -/
  | start (pid : UInt32) (worktree : Text)
  /-- `fs::read_dir`, and the names it will hand out: files that come and go meanwhile may be
  missed, or still be named. -/
  | list (names : List Text)
  /-- Read and parse the next entry; the loop goes on unless it is a lock of ours. -/
  | read
  /-- The entry at hand is given up on, for an I/O error. -/
  | skip
  | judge (elsewhere : Bool)
  | unlink
  | bind (port : UInt16)
  | writeTmp (authToken : Text)
  | rename
  /-- `LockGuard::drop`: whether `remove_file` succeeds; that it did not is only logged. -/
  | dropGuard (removed : Bool)
  | dropListener
  /-- The process exits or crashes; the operating system closes its listener. -/
  | die
  deriving DecidableEq, Repr

/-- Files by name. -/
abbrev LockDirectory (ι : Type) := Text → Option (LockEntry ι)

/-- The lock directory, and the companions that share it. -/
structure LockState (ι : Type) where
  dir : LockDirectory ι
  companions : ι → Companion

namespace Companion

/-- Not started yet. -/
def new : Companion := ⟨0, [], .idle, none, none⟩

/-- Its process runs. -/
def alive (c : Companion) : Bool :=
  match c.phase with
  | .idle | .dead => false
  | _ => true

/-- The path it unlinks next, if it does: the one it judged dead, or its guard's. -/
def unlinkTarget (c : Companion) : Option Text :=
  match c.phase with
  | .condemned name _ => some name
  | _ => c.guard.map lockFileName

end Companion

namespace LockState

variable [Fintype ι] [DecidableEq ι]

/-- `pid_is_alive`. -/
def pidIsAlive (s : LockState ι) (pid : UInt32) (elsewhere : Bool) : Bool :=
  pid != 0 && (elsewhere || decide (∃ j, (s.companions j).alive ∧ (s.companions j).pid = pid))

/-- A step of companion `i`: what becomes of it, and of the directory. -/
def move (s : LockState ι) (i : ι) : LockMove → Option (Companion × LockDirectory ι)
  | .start pid worktree =>
      match (s.companions i).phase with
      | .idle =>
          if pid ≠ 0 ∧ ∀ j, (s.companions j).alive → (s.companions j).pid ≠ pid then
            some ({ s.companions i with pid := pid, worktree := worktree, phase := .started },
              s.dir)
          else none
      | _ => none
  | .list names =>
      match (s.companions i).phase with
      | .started => some ({ s.companions i with phase := .sweeping names }, s.dir)
      | _ => none
  | .read =>
      match (s.companions i).phase with
      | .sweeping (name :: names) =>
          match lockPort? name, (s.dir name).bind LockEntry.raw with
          | some _, some raw =>
              if raw.ideName = ideName then
                some ({ s.companions i with phase := .judging name raw names }, s.dir)
              else some ({ s.companions i with phase := .sweeping names }, s.dir)
          | _, _ => some ({ s.companions i with phase := .sweeping names }, s.dir)
      | _ => none
  | .skip =>
      match (s.companions i).phase with
      | .sweeping (_ :: names) | .condemned _ names =>
          some ({ s.companions i with phase := .sweeping names }, s.dir)
      | _ => none
  | .judge elsewhere =>
      match (s.companions i).phase with
      | .judging name raw names =>
          if s.pidIsAlive raw.pid elsewhere then
            some ({ s.companions i with phase := .sweeping names }, s.dir)
          else some ({ s.companions i with phase := .condemned name names }, s.dir)
      | _ => none
  | .unlink =>
      match (s.companions i).phase with
      | .condemned name names =>
          some ({ s.companions i with phase := .sweeping names }, Function.update s.dir name none)
      | _ => none
  | .bind port =>
      match (s.companions i).phase with
      | .sweeping [] =>
          if ∀ j, (s.companions j).alive → (s.companions j).listener ≠ some port then
            some ({ s.companions i with phase := .bound port, listener := some port }, s.dir)
          else none
      | _ => none
  | .writeTmp authToken =>
      match (s.companions i).phase with
      | .bound port =>
          let lock :=
            LockFile.forThisProcess (s.companions i).pid (s.companions i).worktree authToken
          some ({ s.companions i with phase := .wroteTmp port },
            Function.update s.dir (tmpFileName port) (some ⟨some lock.toRawLock, some i⟩))
      | _ => none
  | .rename =>
      match (s.companions i).phase with
      | .wroteTmp port =>
          (s.dir (tmpFileName port)).map fun e =>
            ({ s.companions i with phase := .serving, guard := some port },
              Function.update (Function.update s.dir (tmpFileName port) none)
                (lockFileName port) (some e))
      | _ => none
  | .dropGuard removed =>
      match (s.companions i).phase, (s.companions i).guard with
      | .serving, some port =>
          some ({ s.companions i with guard := none },
            if removed then Function.update s.dir (lockFileName port) none else s.dir)
      | _, _ => none
  | .dropListener =>
      match (s.companions i).phase with
      | .serving => some ({ s.companions i with listener := none }, s.dir)
      | _ => none
  | .die =>
      if (s.companions i).alive then
        some ({ s.companions i with phase := .dead, listener := none, guard := none }, s.dir)
      else none

/-- One step of one companion; it changes no other, but may change the directory under any of them.
-/
def step (s : LockState ι) (l : ι × LockMove) : Option (LockState ι) :=
  (s.move l.1 l.2).map fun q => ⟨q.2, Function.update s.companions l.1 q.1⟩

end LockState

/-- The companions, interleaved.  No file of the initial directory is by one of them. -/
def lockMachine (ι : Type) [Fintype ι] [DecidableEq ι] : Machine (LockState ι) (ι × LockMove) where
  init s :=
    s.companions = (fun _ => Companion.new) ∧ ∀ name e, s.dir name = some e → e.writer = none
  step := LockState.step

/-! ## What a step can do

The inversion of `LockState.step`: every outcome with its guard, as an inductive family over the
moves. -/

/-- The outcomes of a step of companion `i`. -/
inductive Moved [Fintype ι] (s : LockState ι) (i : ι) [DecidableEq ι] :
    LockMove → Companion → LockDirectory ι → Prop
  | start {pid : UInt32} {worktree : Text} (hidle : (s.companions i).phase = .idle)
      (hpid : pid ≠ 0) :
      Moved s i (.start pid worktree)
        { s.companions i with pid := pid, worktree := worktree, phase := .started } s.dir
  /-- The sweep goes on to its next entry. -/
  | sweep {m : LockMove} {names : List Text} (hphase : (s.companions i).phase.inSweep) :
      Moved s i m { s.companions i with phase := .sweeping names } s.dir
  | read {name : Text} {names : List Text} {raw : RawLock} {e : LockEntry ι}
      (hphase : (s.companions i).phase = .sweeping (name :: names))
      (hname : lockPort? name ≠ none) (he : s.dir name = some e) (hraw : e.raw = some raw) :
      Moved s i .read { s.companions i with phase := .judging name raw names } s.dir
  | judge {name : Text} {names : List Text} {raw : RawLock} {elsewhere : Bool}
      (hphase : (s.companions i).phase = .judging name raw names)
      (hdead : s.pidIsAlive raw.pid elsewhere = false) :
      Moved s i (.judge elsewhere) { s.companions i with phase := .condemned name names } s.dir
  | unlink {name : Text} {names : List Text}
      (hphase : (s.companions i).phase = .condemned name names) :
      Moved s i .unlink { s.companions i with phase := .sweeping names }
        (Function.update s.dir name none)
  | bind {port : UInt16} (hphase : (s.companions i).phase = .sweeping [])
      (hfree : ∀ j, (s.companions j).alive → (s.companions j).listener ≠ some port) :
      Moved s i (.bind port)
        { s.companions i with phase := .bound port, listener := some port } s.dir
  | writeTmp {port : UInt16} {authToken : Text} {raw : RawLock}
      (hphase : (s.companions i).phase = .bound port) (hpid : raw.pid = (s.companions i).pid) :
      Moved s i (.writeTmp authToken) { s.companions i with phase := .wroteTmp port }
        (Function.update s.dir (tmpFileName port) (some ⟨some raw, some i⟩))
  | rename {port : UInt16} {e : LockEntry ι} (hphase : (s.companions i).phase = .wroteTmp port)
      (he : s.dir (tmpFileName port) = some e) :
      Moved s i .rename { s.companions i with phase := .serving, guard := some port }
        (Function.update (Function.update s.dir (tmpFileName port) none)
          (lockFileName port) (some e))
  | dropGuard {port : UInt16} (hphase : (s.companions i).phase = .serving)
      (hguard : (s.companions i).guard = some port) :
      Moved s i (.dropGuard true) { s.companions i with guard := none }
        (Function.update s.dir (lockFileName port) none)
  | leaveLock {port : UInt16} (hphase : (s.companions i).phase = .serving)
      (hguard : (s.companions i).guard = some port) :
      Moved s i (.dropGuard false) { s.companions i with guard := none } s.dir
  | dropListener (hphase : (s.companions i).phase = .serving) :
      Moved s i .dropListener { s.companions i with listener := none } s.dir
  | die (halive : (s.companions i).alive) :
      Moved s i .die
        { s.companions i with phase := .dead, listener := none, guard := none } s.dir

section Moves

variable [Fintype ι] [DecidableEq ι]

/-- **What a step can do.** -/
theorem moved_of_move {s : LockState ι} {i : ι} {m : LockMove} {c : Companion}
    {dir : LockDirectory ι} (h : s.move i m = some (c, dir)) : Moved s i m c dir := by
  cases m with
  | start pid worktree =>
      simp only [LockState.move] at h
      split at h
      · split_ifs at h with hpid
        cases h
        exact Moved.start ‹_› hpid.1
      · cases h
  | list names =>
      simp only [LockState.move] at h
      split at h
      · rename_i hphase
        cases h
        exact Moved.sweep (by rw [hphase]; rfl)
      · cases h
  | read =>
      simp only [LockState.move] at h
      split at h
      · rename_i name names hphase
        split at h
        · rename_i port raw hport hraw
          split_ifs at h
          · cases h
            obtain ⟨e, he, hraw⟩ := Option.bind_eq_some_iff.mp hraw
            exact Moved.read hphase (by rw [hport]; simp) he hraw
          · cases h
            exact Moved.sweep (by rw [hphase]; rfl)
        · cases h
          exact Moved.sweep (by rw [hphase]; rfl)
      · cases h
  | skip =>
      simp only [LockState.move] at h
      split at h
      · rename_i hphase
        cases h
        exact Moved.sweep (by rw [hphase]; rfl)
      · rename_i hphase
        cases h
        exact Moved.sweep (by rw [hphase]; rfl)
      · cases h
  | judge elsewhere =>
      simp only [LockState.move] at h
      split at h
      · rename_i hphase
        split_ifs at h with hlive
        · cases h
          exact Moved.sweep (by rw [hphase]; rfl)
        · cases h
          exact Moved.judge hphase (by simpa using hlive)
      · cases h
  | unlink =>
      simp only [LockState.move] at h
      split at h <;> cases h
      exact Moved.unlink ‹_›
  | bind port =>
      simp only [LockState.move] at h
      split at h
      · split_ifs at h with hfree
        cases h
        exact Moved.bind ‹_› hfree
      · cases h
  | writeTmp authToken =>
      simp only [LockState.move] at h
      split at h <;> cases h
      exact Moved.writeTmp ‹_› rfl
  | rename =>
      simp only [LockState.move] at h
      split at h
      · obtain ⟨e, he, hq⟩ := Option.map_eq_some_iff.mp h
        cases hq
        exact Moved.rename ‹_› he
      · cases h
  | dropGuard removed =>
      simp only [LockState.move] at h
      split at h <;> cases h
      cases removed with
      | true => exact Moved.dropGuard ‹_› ‹_›
      | false => exact Moved.leaveLock ‹_› ‹_›
  | dropListener =>
      simp only [LockState.move] at h
      split at h <;> cases h
      exact Moved.dropListener ‹_›
  | die =>
      simp only [LockState.move] at h
      split_ifs at h with halive
      cases h
      exact Moved.die halive

lemma moved_of_step {s t : LockState ι} {i : ι} {m : LockMove} (h : s.step (i, m) = some t) :
    ∃ c dir, Moved s i m c dir ∧ t = ⟨dir, Function.update s.companions i c⟩ := by
  obtain ⟨⟨c, dir⟩, hmove, rfl⟩ := Option.map_eq_some_iff.mp h
  exact ⟨c, dir, moved_of_move hmove, rfl⟩

end Moves

/-! ## What holds of every state

Most of it is about one companion and what its phase says it holds.  A step of another companion can
break none of it, since no process id and no port is taken twice. -/

namespace LockState

/-- What the phase of companion `i` says of its listener, its guard and the directory. -/
def PhaseHolds (s : LockState ι) (i : ι) : Prop :=
  match (s.companions i).phase with
  | .idle | .dead => (s.companions i).listener = none ∧ (s.companions i).guard = none
  | .started | .sweeping _ => (s.companions i).guard = none
  | .judging name _ _ | .condemned name _ =>
      lockPort? name ≠ none ∧ (s.companions i).guard = none
  | .bound port => (s.companions i).listener = some port ∧ (s.companions i).guard = none
  | .wroteTmp port =>
      (s.companions i).listener = some port ∧ (s.companions i).guard = none ∧
        ∃ e, s.dir (tmpFileName port) = some e ∧ e.writer = some i
  | .serving => True

/-- The writer of an entry, and the process it names. -/
def WriterHolds (s : LockState ι) (e : LockEntry ι) : Prop :=
  ∀ j, e.writer = some j → (s.companions j).phase ≠ .idle ∧
    ∃ raw, e.raw = some raw ∧ raw.pid = (s.companions j).pid

end LockState

/-- What every run keeps: of each companion, what its phase says it holds; of each file, that
whoever wrote it did, under its own process id; and that no port is bound twice. -/
structure LockInv (s : LockState ι) : Prop where
  phase : ∀ i, s.PhaseHolds i
  /-- A port is bound once. -/
  listener : ∀ i j p, (s.companions i).listener = some p → (s.companions j).listener = some p →
    i = j
  writer : ∀ name e, s.dir name = some e → s.WriterHolds e
  pid : ∀ i, (s.companions i).phase ≠ .idle → (s.companions i).pid ≠ 0

namespace LockInv

variable {s : LockState ι} (h : LockInv s) {i : ι}

include h

lemma of_wroteTmp {port : UInt16} (hphase : (s.companions i).phase = .wroteTmp port) :
    (s.companions i).listener = some port ∧
      ∃ e, s.dir (tmpFileName port) = some e ∧ e.writer = some i := by
  have hi := h.phase i
  simp only [LockState.PhaseHolds, hphase] at hi
  exact ⟨hi.1, hi.2.2⟩

lemma of_bound {port : UInt16} (hphase : (s.companions i).phase = .bound port) :
    (s.companions i).listener = some port := by
  have hi := h.phase i
  simp only [LockState.PhaseHolds, hphase] at hi
  exact hi.1

lemma listener_none (hdead : (s.companions i).alive = false) :
    (s.companions i).listener = none := by
  have hi := h.phase i
  rw [LockState.PhaseHolds] at hi
  rw [Companion.alive] at hdead
  split at hdead <;> simp_all

/-- Only a companion that serves holds a guard. -/
lemma guard_none (hphase : (s.companions i).phase ≠ .serving) :
    (s.companions i).guard = none := by
  have hi := h.phase i
  rw [LockState.PhaseHolds] at hi
  split at hi <;> simp_all

/-- What a companion unlinks is a lock. -/
lemma lockPort?_of_unlinkTarget {name : Text}
    (htarget : (s.companions i).unlinkTarget = some name) : lockPort? name ≠ none := by
  rw [Companion.unlinkTarget] at htarget
  split at htarget
  · rename_i name' names hphase
    have hi := h.phase i
    simp only [LockState.PhaseHolds, hphase] at hi
    cases htarget
    exact hi.1
  · obtain ⟨port, hport, rfl⟩ := Option.map_eq_some_iff.mp htarget
    rw [lockPort?_lockFileName]
    exact Option.some_ne_none port

end LockInv

section Steps

variable [Fintype ι] [DecidableEq ι]

namespace Moved

variable {s : LockState ι} {i : ι} {m : LockMove} {c : Companion} {dir : LockDirectory ι}

lemma phase_ne_idle (h : Moved s i m c dir) : c.phase ≠ .idle := by
  cases h with
  | dropGuard hphase | leaveLock hphase | dropListener hphase => simp [hphase]
  | _ => simp

lemma pid_eq (h : Moved s i m c dir) (hi : (s.companions i).phase ≠ .idle) :
    c.pid = (s.companions i).pid := by
  cases h with
  | start hidle => exact absurd hidle hi
  | _ => rfl

lemma pid_ne_zero (h : Moved s i m c dir) (hs : LockInv s) : c.pid ≠ 0 := by
  by_cases hi : (s.companions i).phase = .idle
  · cases h with
    | start _ hpid => exact hpid
    | sweep hphase => simp [hi, LockPhase.inSweep] at hphase
    | die halive => simp [Companion.alive, hi] at halive
    | _ => simp_all
  · rw [h.pid_eq hi]
    exact hs.pid i hi

/-- A listener was bound before, or is bound to a port that was free. -/
lemma listener_from (h : Moved s i m c dir) {port : UInt16} (hport : c.listener = some port) :
    (s.companions i).listener = some port ∨
      ∀ j, (s.companions j).alive → (s.companions j).listener ≠ some port := by
  cases h with
  | bind _ hfree => exact Or.inr (by simpa [Option.some.inj hport] using hfree)
  | dropListener | die => simp at hport
  | _ => exact Or.inl hport

/-- Where the entries of the next directory come from. -/
lemma entry_from (h : Moved s i m c dir) {name : Text} {e : LockEntry ι}
    (he : dir name = some e) :
    (∃ name', s.dir name' = some e) ∨
      (e.writer = some i ∧ ∃ raw, e.raw = some raw ∧ raw.pid = c.pid) := by
  cases h with
  | unlink | dropGuard =>
      rw [Function.update_apply] at he
      split_ifs at he
      exact Or.inl ⟨name, he⟩
  | @writeTmp port authToken raw hphase hpid =>
      rw [Function.update_apply] at he
      split_ifs at he
      · cases he
        exact Or.inr ⟨rfl, raw, rfl, hpid⟩
      · exact Or.inl ⟨name, he⟩
  | @rename port e' hphase he' =>
      simp only [Function.update_apply] at he
      split_ifs at he
      · cases he
        exact Or.inl ⟨_, he'⟩
      · exact Or.inl ⟨name, he⟩
  | _ => exact Or.inl ⟨name, he⟩

/-- No other companion's temporary file is touched. -/
lemma tmp_eq (h : Moved s i m c dir) (hs : LockInv s) {j : ι} (hj : j ≠ i) {port : UInt16}
    (hphase : (s.companions j).phase = .wroteTmp port) :
    dir (tmpFileName port) = s.dir (tmpFileName port) := by
  have hlistener := (hs.of_wroteTmp hphase).1
  have hlock (p : UInt16) : tmpFileName port ≠ lockFileName p := by
    intro heq
    have hp := lockPort?_tmpFileName port
    rw [heq, lockPort?_lockFileName] at hp
    cases hp
  have hother {p : UInt16} (hp : (s.companions i).listener = some p) :
      tmpFileName port ≠ tmpFileName p := by
    intro heq
    rw [← tmpFileName_injective heq] at hp
    exact hj (hs.listener j i port hlistener hp)
  cases h with
  | @unlink name names hi =>
      have htarget : (s.companions i).unlinkTarget = some name := by
        rw [Companion.unlinkTarget, hi]
      have hname := hs.lockPort?_of_unlinkTarget htarget
      have hne : tmpFileName port ≠ name := by
        rintro rfl
        exact hname (lockPort?_tmpFileName port)
      exact Function.update_of_ne hne _ _
  | dropGuard => exact Function.update_of_ne (hlock _) _ _
  | writeTmp hi => exact Function.update_of_ne (hother (hs.of_bound hi)) _ _
  | rename hi =>
      rw [Function.update_of_ne (hlock _), Function.update_of_ne (hother (hs.of_wroteTmp hi).1)]
  | _ => rfl

/-- What the next phase of the companion that moves says. -/
lemma phaseHolds (h : Moved s i m c dir) (hs : LockInv s) :
    LockState.PhaseHolds ⟨dir, Function.update s.companions i c⟩ i := by
  rw [LockState.PhaseHolds]
  simp only [Function.update_self]
  cases h with
  | start hidle => exact hs.guard_none (by simp [hidle])
  | sweep hphase =>
      refine hs.guard_none ?_
      intro hi
      simp [hi, LockPhase.inSweep] at hphase
  | read hphase hname => exact ⟨hname, hs.guard_none (by simp [hphase])⟩
  | @judge name names raw elsewhere hphase =>
      have hi := hs.phase i
      simp only [LockState.PhaseHolds, hphase] at hi
      exact hi
  | unlink hphase => exact hs.guard_none (by simp [hphase])
  | bind hphase => exact ⟨rfl, hs.guard_none (by simp [hphase])⟩
  | writeTmp hphase =>
      refine ⟨hs.of_bound hphase, hs.guard_none (by simp [hphase]), ?_⟩
      rw [Function.update_self]
      exact ⟨_, rfl, rfl⟩
  | rename => trivial
  | dropGuard hphase | leaveLock hphase | dropListener hphase => simp [hphase]
  | die => exact ⟨rfl, rfl⟩

end Moved

/-- **One step.** -/
theorem lockInv_step {s t : LockState ι} {l : ι × LockMove} (hs : LockInv s)
    (hstep : (lockMachine ι).step s l = some t) : LockInv t := by
  obtain ⟨i, m⟩ := l
  obtain ⟨c, dir, hm, rfl⟩ := moved_of_step hstep
  refine ⟨?_, ?_, ?_, ?_⟩
  · -- Of the others' phases, only `wroteTmp` speaks of the directory.
    intro j
    by_cases hj : j = i
    · subst hj
      exact hm.phaseHolds hs
    · have hphase := hs.phase j
      rw [LockState.PhaseHolds] at hphase ⊢
      simp only [Function.update_of_ne hj]
      cases hport : (s.companions j).phase with
      | wroteTmp port =>
          simp only [hport] at hphase ⊢
          rwa [hm.tmp_eq hs hj hport]
      | serving => trivial
      | _ =>
          simp only [hport] at hphase ⊢
          exact hphase
  · have hfrom {k : ι} {p : UInt16} (hk : k ≠ i) (hp : c.listener = some p)
        (hpk : (s.companions k).listener = some p) : k = i := by
      rcases hm.listener_from hp with hi | hfree
      · exact hs.listener k i p hpk hi
      · refine absurd hpk (hfree k ?_)
        by_contra hdead
        rw [hs.listener_none (by simpa using hdead)] at hpk
        cases hpk
    intro j k p hj hk
    simp only [Function.update_apply] at hj hk
    split_ifs at hj hk with hji hki hki
    · rw [hji, hki]
    · exact absurd (hfrom hki hj hk) hki
    · exact absurd (hfrom hji hk hj) hji
    · exact hs.listener j k p hj hk
  · intro name e he j hj
    rcases hm.entry_from he with ⟨name', he'⟩ | ⟨hwriter, raw, hraw, hpid⟩
    · obtain ⟨hidle, raw, hraw, hpid⟩ := hs.writer name' e he' j hj
      by_cases hji : j = i
      · subst hji
        simp only [Function.update_self]
        exact ⟨hm.phase_ne_idle, raw, hraw, hpid.trans (hm.pid_eq hidle).symm⟩
      · simp only [Function.update_of_ne hji]
        exact ⟨hidle, raw, hraw, hpid⟩
    · rw [hwriter] at hj
      cases hj
      simp only [Function.update_self]
      exact ⟨hm.phase_ne_idle, raw, hraw, hpid⟩
  · intro j hj
    by_cases hji : j = i
    · subst hji
      simp only [Function.update_self]
      exact hm.pid_ne_zero hs
    · simp only [Function.update_of_ne hji] at hj ⊢
      exact hs.pid j hj

omit [Fintype ι] [DecidableEq ι] in
lemma lockInv_init {s : LockState ι} (hnew : s.companions = fun _ => Companion.new)
    (hdir : ∀ name e, s.dir name = some e → e.writer = none) : LockInv s := by
  refine ⟨?_, ?_, ?_, ?_⟩
  · intro i
    simp [LockState.PhaseHolds, hnew, Companion.new]
  · intro i j p hi
    simp [hnew, Companion.new] at hi
  · intro name e he j hj
    rw [hdir name e he] at hj
    cases hj
  · intro i hi
    simp [hnew, Companion.new] at hi

end Steps

end Connect
