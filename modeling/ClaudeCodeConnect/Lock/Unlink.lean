import ClaudeCodeConnect.Lock.Companions

/-!
# Whose lock an unlink removes

`LockDir::sweep_dead` and `LockGuard::drop` unlink by path.  Whether the file they remove is the one
they judged, or wrote, depends on what the other companions did in between.

* `OwnOrDead` -- no live companion but oneself wrote what stands under a name.
* `Uncontended` -- the condition on steps: no rename onto a path that another companion is to
  unlink, and no lock judged dead where a live companion's lock has replaced the one that was read.
* `unlinks_own_or_dead` -- a run of uncontended steps unlinks only locks of its own and of the
  dead, and after any other step the next one can unlink the lock of a live companion.
* `unlinks_live_lock` -- a sweep that unlinks a lock written since it read the one before, and a
  guard that unlinks its successor's on the same port.

The invariant is `PathsClear`: every path a companion is to unlink holds, at all times from then on,
its own lock or a dead companion's.
-/

namespace Connect

variable {ι : Type} [Fintype ι] [DecidableEq ι]

namespace LockState

/-- No live companion but `i` wrote what stands under `name`. -/
def OwnOrDead (s : LockState ι) (i : ι) (name : Text) : Prop :=
  ∀ j, (s.dir name).bind LockEntry.writer = some j → j = i ∨ (s.companions j).alive = false

/-- The lock a step unlinks. -/
def unlinks (s : LockState ι) : ι × LockMove → Option Text
  | (i, .unlink) | (i, .dropGuard true) => (s.companions i).unlinkTarget
  | _ => none

/-- If the step unlinks a lock, it is the own one, or no live companion wrote it. -/
def UnlinksOwnOrDead (s : LockState ι) (l : ι × LockMove) : Prop :=
  ∀ name ∈ s.unlinks l, s.OwnOrDead l.1 name

/-- The step is not one of the two halves of the race: no lock is renamed into place where another
companion is about to unlink one, and none is judged dead that was replaced by a live one since it
was read. -/
def Uncontended (s : LockState ι) : ι × LockMove → Prop
  | (i, .rename) =>
      match (s.companions i).phase with
      | .wroteTmp port => ∀ j, j ≠ i → (s.companions j).unlinkTarget ≠ some (lockFileName port)
      | _ => True
  | (i, .judge elsewhere) =>
      match (s.companions i).phase with
      | .judging name raw _ =>
          s.pidIsAlive raw.pid elsewhere = false →
            (s.dir name).bind LockEntry.raw ≠ some raw → s.OwnOrDead i name
      | _ => True
  | _ => True

instance (s : LockState ι) (i : ι) (name : Text) : Decidable (s.OwnOrDead i name) :=
  inferInstanceAs (Decidable (∀ _, _))

instance (s : LockState ι) (l : ι × LockMove) : Decidable (s.UnlinksOwnOrDead l) :=
  inferInstanceAs (Decidable (∀ name ∈ s.unlinks l, s.OwnOrDead l.1 name))

instance (s : LockState ι) (l : ι × LockMove) : Decidable (s.Uncontended l) := by
  unfold Uncontended
  split
  · split <;> infer_instance
  · split <;> infer_instance
  · infer_instance

/-- Every path to be unlinked holds a lock of the companion's own, or a dead one's. -/
def PathsClear (s : LockState ι) : Prop :=
  ∀ i name, (s.companions i).unlinkTarget = some name → s.OwnOrDead i name

end LockState

/-! ## What one step keeps

The invariant: whoever is about to unlink a path is about to unlink its own lock or a dead
companion's. -/

namespace Moved

variable {s : LockState ι} {i : ι} {m : LockMove} {c : Companion} {dir : LockDirectory ι}

/-- Who moves is alive, or starts. -/
lemma alive_of_ne_idle (h : Moved s i m c dir) (hi : (s.companions i).phase ≠ .idle) :
    (s.companions i).alive = true := by
  cases h with
  | start hidle => exact absurd hidle hi
  | die halive => exact halive
  | sweep hphase =>
      rw [Companion.alive]
      split
      · exact absurd ‹_› hi
      · simp [‹_ = LockPhase.dead›, LockPhase.inSweep] at hphase
      · rfl
  | _ => simp_all [Companion.alive]

/-- A lock that stands afterwards stood before, unless it was renamed there. -/
lemma dir_from (h : Moved s i m c dir) {name : Text} {e : LockEntry ι}
    (hname : lockPort? name ≠ none) (he : dir name = some e)
    (hrename : ∀ port, m = .rename → (s.companions i).phase = .wroteTmp port →
      name ≠ lockFileName port) : s.dir name = some e := by
  have htmp (port : UInt16) : name ≠ tmpFileName port := by
    rintro rfl
    exact hname (lockPort?_tmpFileName port)
  cases h with
  | unlink | dropGuard =>
      rw [Function.update_apply] at he
      split_ifs at he
      exact he
  | @writeTmp port =>
      rwa [Function.update_of_ne (htmp port)] at he
  | @rename port e' hphase =>
      rwa [Function.update_of_ne (hrename port rfl hphase), Function.update_of_ne (htmp port)] at he
  | _ => exact he

/-- The paths of the others stay clear. -/
lemma ownOrDead_other (h : Moved s i m c dir) (hs : LockInv s) {k : ι} {name : Text} (hk : k ≠ i)
    (htarget : (s.companions k).unlinkTarget = some name) (hclear : s.OwnOrDead k name)
    (hok : s.Uncontended (i, m)) :
    LockState.OwnOrDead ⟨dir, Function.update s.companions i c⟩ k name := by
  have hrename : ∀ port, m = .rename → (s.companions i).phase = .wroteTmp port →
      name ≠ lockFileName port := by
    rintro port rfl hphase rfl
    simp only [LockState.Uncontended, hphase] at hok
    exact hok k hk htarget
  intro j hj
  obtain ⟨e, he, hwriter⟩ := Option.bind_eq_some_iff.mp hj
  have he' : s.dir name = some e := h.dir_from (hs.lockPort?_of_unlinkTarget htarget) he hrename
  have hj' := hclear j (Option.bind_eq_some_iff.mpr ⟨e, he', hwriter⟩)
  by_cases hji : j = i
  · -- The companion that moves wrote it: then it is alive, and the path was not clear.
    subst hji
    have halive := h.alive_of_ne_idle (hs.writer name e he' j hwriter).1
    rw [halive] at hj'
    exact Or.inl (hj'.resolve_right (by simp))
  · simpa only [Function.update_of_ne hji] using hj'

omit [DecidableEq ι] in
/-- A lock judged dead is, if it is still the one that was read. -/
lemma ownOrDead_judged {elsewhere : Bool} {name : Text} {raw : RawLock} {names : List Text}
    (hs : LockInv s) (hphase : (s.companions i).phase = .judging name raw names)
    (hdead : s.pidIsAlive raw.pid elsewhere = false)
    (hok : s.Uncontended (i, .judge elsewhere)) : s.OwnOrDead i name := by
  simp only [LockState.Uncontended, hphase] at hok
  by_cases hraw : (s.dir name).bind LockEntry.raw = some raw
  · intro j hj
    obtain ⟨e, he, hwriter⟩ := Option.bind_eq_some_iff.mp hj
    obtain ⟨hidle, raw', hraw', hpid⟩ := hs.writer name e he j hwriter
    have heq : raw' = raw := by
      rw [he, Option.bind_some, hraw'] at hraw
      exact Option.some.inj hraw
    refine Or.inr ?_
    by_contra halive
    have hzero : raw.pid ≠ 0 := by
      rw [← heq, hpid]
      exact hs.pid j hidle
    have hfound : ∃ j, (s.companions j).alive ∧ (s.companions j).pid = raw.pid :=
      ⟨j, by simpa using halive, by rw [← heq, hpid]⟩
    simp [LockState.pidIsAlive, hzero, hfound] at hdead
  · exact hok hdead hraw

/-- Where the path of the companion that moves comes from: it was to unlink it before, judged the
lock there dead, or put its own there. -/
lemma unlinkTarget_from (h : Moved s i m c dir) (hs : LockInv s) {name : Text}
    (htarget : c.unlinkTarget = some name) :
    (dir = s.dir ∧ (s.companions i).unlinkTarget = some name) ∨
      (∃ elsewhere raw names, m = .judge elsewhere ∧ dir = s.dir ∧
        (s.companions i).phase = .judging name raw names ∧
        s.pidIsAlive raw.pid elsewhere = false) ∨
      ∃ e, dir name = some e ∧ e.writer = some i := by
  have hnone (hphase : (s.companions i).phase ≠ .serving)
      (hc : (s.companions i).guard.map lockFileName = some name) : False := by
    rw [hs.guard_none hphase] at hc
    cases hc
  cases h with
  | start hidle => exact (hnone (by simp [hidle]) htarget).elim
  | sweep hphase =>
      refine (hnone ?_ htarget).elim
      intro hi
      simp [hi, LockPhase.inSweep] at hphase
  | read hphase | unlink hphase | bind hphase | writeTmp hphase =>
      exact (hnone (by simp [hphase]) htarget).elim
  | @judge name' names raw elsewhere hphase hdead =>
      cases htarget
      exact Or.inr (Or.inl ⟨elsewhere, raw, names, rfl, rfl, hphase, hdead⟩)
  | @rename port e hphase he =>
      cases htarget
      obtain ⟨e', he', hwriter⟩ := (hs.of_wroteTmp hphase).2
      rw [he] at he'
      cases he'
      exact Or.inr (Or.inr ⟨e, Function.update_self _ _ _, hwriter⟩)
  | dropListener hphase =>
      refine Or.inl ⟨rfl, ?_⟩
      simpa only [Companion.unlinkTarget, hphase] using htarget
  | dropGuard hphase | leaveLock hphase =>
      simp [Companion.unlinkTarget, hphase] at htarget
  | die => cases htarget

/-- The path of the companion that moves is clear. -/
lemma ownOrDead_self (h : Moved s i m c dir) (hs : LockInv s) (hclear : s.PathsClear)
    (hok : s.Uncontended (i, m)) {name : Text} (htarget : c.unlinkTarget = some name) :
    LockState.OwnOrDead ⟨dir, Function.update s.companions i c⟩ i name := by
  intro j (hj : (dir name).bind LockEntry.writer = some j)
  by_cases hji : j = i
  · exact Or.inl hji
  · simp only [Function.update_of_ne hji]
    rcases h.unlinkTarget_from hs htarget with
      ⟨hdir, hbefore⟩ | ⟨elsewhere, raw, names, rfl, hdir, hphase, hdead⟩ | ⟨e, he, hwriter⟩
    · rw [hdir] at hj
      exact hclear i name hbefore j hj
    · rw [hdir] at hj
      exact ownOrDead_judged hs hphase hdead hok j hj
    · rw [he, Option.bind_some, hwriter] at hj
      exact Or.inl (Option.some.inj hj).symm

end Moved

/-- **One step.** -/
lemma pathsClear_step {s t : LockState ι} {l : ι × LockMove} (hs : LockInv s)
    (hclear : s.PathsClear) (hok : s.Uncontended l)
    (hstep : (lockMachine ι).step s l = some t) : t.PathsClear := by
  obtain ⟨i, m⟩ := l
  obtain ⟨c, dir, hm, rfl⟩ := moved_of_step hstep
  intro k name htarget
  by_cases hk : k = i
  · subst hk
    simp only [Function.update_self] at htarget
    exact hm.ownOrDead_self hs hclear hok htarget
  · simp only [Function.update_of_ne hk] at htarget
    exact hm.ownOrDead_other hs hk htarget (hclear k name htarget) hok

omit [Fintype ι] [DecidableEq ι] in
lemma LockState.PathsClear.unlinksOwnOrDead {s : LockState ι} (h : s.PathsClear)
    (l : ι × LockMove) : s.UnlinksOwnOrDead l := by
  intro name hname
  obtain ⟨i, m⟩ := l
  cases m with
  | unlink => exact h i name hname
  | dropGuard removed =>
      cases removed with
      | true => exact h i name hname
      | false => cases hname
  | _ => cases hname

/-! ## Contended steps

A contended step brings about the race: from the state it leads to, the next step can be the unlink
of a live lock. -/

/-- A companion that is to unlink a path can do so at once. -/
lemma unlinks_next {s : LockState ι} (hs : LockInv s) {j : ι} {name : Text}
    (htarget : (s.companions j).unlinkTarget = some name) :
    ∃ m, (s.step (j, m)).isSome ∧ s.unlinks (j, m) = some name := by
  by_cases hphase : (s.companions j).phase = .serving
  · have hguard := htarget
    simp only [Companion.unlinkTarget, hphase] at hguard
    obtain ⟨port, hport, -⟩ := Option.map_eq_some_iff.mp hguard
    exact ⟨.dropGuard true, by simp [LockState.step, LockState.move, hphase, hport], htarget⟩
  · have hcondemned := htarget
    rw [Companion.unlinkTarget, hs.guard_none hphase] at hcondemned
    split at hcondemned
    · rename_i hphase
      exact ⟨.unlink, by simp [LockState.step, LockState.move, hphase], htarget⟩
    · cases hcondemned

/-- After a contended step a live companion's lock stands where another is to unlink. -/
lemma not_pathsClear_of_contended {s t : LockState ι} {l : ι × LockMove} (hs : LockInv s)
    (hl : (lockMachine ι).step s l = some t) (hok : ¬s.Uncontended l) : ¬t.PathsClear := by
  obtain ⟨i, m⟩ := l
  obtain ⟨⟨c, dir⟩, hmove, rfl⟩ := Option.map_eq_some_iff.mp hl
  intro hclear
  cases m with
  | rename =>
      simp only [LockState.move] at hmove
      split at hmove
      · rename_i port hphase
        simp only [LockState.Uncontended, hphase] at hok
        push Not at hok
        obtain ⟨j, hji, htarget⟩ := hok
        obtain ⟨e, he, hwriter⟩ := (hs.of_wroteTmp hphase).2
        rw [he, Option.map_some] at hmove
        cases hmove
        have hown := hclear j (lockFileName port)
          (by simp only [Function.update_of_ne hji]; exact htarget) i (by simp [hwriter])
        simp only [Function.update_self, Companion.alive] at hown
        rcases hown with hij | hdead
        · exact hji hij.symm
        · cases hdead
      · cases hmove
  | judge elsewhere =>
      simp only [LockState.move] at hmove
      split at hmove
      · rename_i name raw names hphase
        simp only [LockState.Uncontended, hphase] at hok
        push Not at hok
        obtain ⟨hdead, -, hlive⟩ := hok
        rw [if_neg (by simp [hdead])] at hmove
        cases hmove
        refine hlive fun j hj => ?_
        have hown := hclear i name (by simp [Companion.unlinkTarget]) j hj
        by_cases hji : j = i
        · exact Or.inl hji
        · simpa only [Function.update_of_ne hji] using hown
      · cases hmove
  | _ => exact hok trivial

/-- After a contended step, the next one can unlink the lock of a live companion. -/
lemma contended_step {s t : LockState ι} {l : ι × LockMove} (hs : LockInv s)
    (hl : (lockMachine ι).step s l = some t) (hok : ¬s.Uncontended l) :
    ∃ l', ((lockMachine ι).step t l').isSome ∧ ¬t.UnlinksOwnOrDead l' := by
  have hclear := not_pathsClear_of_contended hs hl hok
  rw [LockState.PathsClear] at hclear
  push Not at hclear
  obtain ⟨k, name, htarget, hlive⟩ := hclear
  obtain ⟨m, hm, hunlinks⟩ := unlinks_next (lockInv_step hs hl) htarget
  exact ⟨(k, m), hm, fun hown => hlive (hown name hunlinks)⟩

/-- **Whose lock an unlink removes.**  In a run of any number of companions whose steps are all
uncontended, every unlink is of a lock of the companion's own or of a dead one's; and wherever a run
takes a contended step, the step after it can be the unlink of another's lock, that other being
alive. -/
theorem unlinks_own_or_dead {s t : LockState ι} {tr : List (LockState ι × (ι × LockMove))}
    (hs : (lockMachine ι).init s) (h : (lockMachine ι).Run s tr t) :
    ((∀ x ∈ tr, x.1.Uncontended x.2) →
      (∀ x ∈ tr, x.1.UnlinksOwnOrDead x.2) ∧ ∀ l, t.UnlinksOwnOrDead l) ∧
    ∀ l u, (lockMachine ι).step t l = some u → ¬t.Uncontended l →
      ∃ l', ((lockMachine ι).step u l').isSome ∧ ¬u.UnlinksOwnOrDead l' := by
  have hinit : LockInv s := lockInv_init hs.1 hs.2
  have hclear : s.PathsClear := by
    intro i name htarget
    simp [hs.1, Companion.new, Companion.unlinkTarget] at htarget
  constructor
  · intro hok
    have hstep : ∀ (s : LockState ι) (l : ι × LockMove) (t : LockState ι),
        LockInv s ∧ s.PathsClear → s.Uncontended l → (lockMachine ι).step s l = some t →
          LockInv t ∧ t.PathsClear :=
      fun s l t hi hok hl => ⟨lockInv_step hi.1 hl, pathsClear_step hi.1 hi.2 hok hl⟩
    constructor
    · intro x hx
      have hbefore := h.preserves_before (fun s => LockInv s ∧ s.PathsClear)
        (fun s l => s.Uncontended l) hstep ⟨hinit, hclear⟩ hok x hx
      exact hbefore.2.unlinksOwnOrDead x.2
    · intro l
      have hlast := h.preserves (fun s => LockInv s ∧ s.PathsClear)
        (fun s l => s.Uncontended l) hstep ⟨hinit, hclear⟩ hok
      exact hlast.2.unlinksOwnOrDead l
  · intro l u hl hok
    have ht : LockInv t := h.preserves LockInv (fun _ _ => True)
      (fun s l t hi _ hl => lockInv_step hi hl) hinit (fun _ _ => trivial)
    exact contended_step ht hl hok

/-- Nothing in the directory, or a lock under port 8080 that a companion of the past left: its pid
was 99. -/
def emptyDirectory : LockState (Fin 2) := ⟨fun _ => none, fun _ => Companion.new⟩

/-- The second of the two. -/
def staleDirectory : LockState (Fin 2) where
  dir name := if name = lockFileName 8080 then some ⟨some ⟨[], [], ideName, 99⟩, none⟩ else none
  companions _ := Companion.new

/-- From the bind on. -/
def publishes (i : Fin 2) : List (Fin 2 × LockMove) :=
  [(i, .bind 8080), (i, .writeTmp []), (i, .rename)]

/-- The sweep of a directory that holds one lock, up to the verdict that it is dead. -/
def condemns (i : Fin 2) (pid : UInt32) : List (Fin 2 × LockMove) :=
  [(i, .start pid []), (i, .list [lockFileName 8080]), (i, .read), (i, .judge false)]

/-- A companion crashes, and the next one sweeps its lock. -/
def crashThenSweep : List (Fin 2 × LockMove) :=
  [(0, .start 10 []), (0, .list [])] ++ publishes 0 ++ (0, .die) :: condemns 1 11 ++ [(1, .unlink)]

theorem unlinks_own_or_dead_sweep :
    ∃ (s t : LockState (Fin 2)) (tr : List (LockState (Fin 2) × (Fin 2 × LockMove))),
      (lockMachine (Fin 2)).Run s tr t ∧ tr.getLast?.map Prod.snd = some (1, .unlink) ∧
        ∀ x ∈ tr, x.1.UnlinksOwnOrDead x.2 := by
  obtain ⟨t, ht⟩ : ∃ t, (lockMachine (Fin 2)).exec emptyDirectory crashThenSweep = some t :=
    Option.isSome_iff_exists.mp (by decide +kernel)
  have hrun := Machine.run_of_exec crashThenSweep ht
  exact ⟨_, t, _, hrun, by decide +kernel,
    ((unlinks_own_or_dead ⟨rfl, by simp [emptyDirectory]⟩ hrun).1 (by decide +kernel)).1⟩

lemma exists_run_of_exec {s : LockState (Fin 2)} {l : Fin 2 × LockMove}
    (ls : List (Fin 2 × LockMove)) (h : ((lockMachine (Fin 2)).exec s ls).any fun t =>
      ((lockMachine (Fin 2)).step t l).isSome && !decide (t.UnlinksOwnOrDead l)) :
    ∃ (t : LockState (Fin 2)) (tr : List (LockState (Fin 2) × (Fin 2 × LockMove))),
      (lockMachine (Fin 2)).Run s tr t ∧ ((lockMachine (Fin 2)).step t l).isSome ∧
        ¬t.UnlinksOwnOrDead l := by
  obtain ⟨t, ht, hl⟩ := (Option.any_eq_true _ _).mp h
  obtain ⟨hstep, hown⟩ := (Bool.and_eq_true_iff).mp hl
  exact ⟨t, _, Machine.run_of_exec ls ht, hstep, by simpa using hown⟩

/-- **A live companion's lock is unlinked.**  Two companions start over a lock left under 8080; both
judge it dead, the second unlinks it, binds 8080 and publishes its own lock, and the first unlinks
that.  And: a companion's accept loop drops its listener, another one binds the same port and
publishes its lock, and the guard of the first unlinks it. -/
theorem unlinks_live_lock :
    (∃ (s t : LockState (Fin 2)) (tr : List (LockState (Fin 2) × (Fin 2 × LockMove))),
      (lockMachine (Fin 2)).init s ∧ (lockMachine (Fin 2)).Run s tr t ∧
        ((lockMachine (Fin 2)).step t (0, .unlink)).isSome ∧ ¬t.UnlinksOwnOrDead (0, .unlink)) ∧
    ∃ (s t : LockState (Fin 2)) (tr : List (LockState (Fin 2) × (Fin 2 × LockMove))),
      (lockMachine (Fin 2)).init s ∧ (lockMachine (Fin 2)).Run s tr t ∧
        ((lockMachine (Fin 2)).step t (0, .dropGuard true)).isSome ∧
        ¬t.UnlinksOwnOrDead (0, .dropGuard true) := by
  constructor
  · obtain ⟨t, tr, h⟩ := exists_run_of_exec (s := staleDirectory) (l := (0, .unlink))
      (condemns 0 10 ++ condemns 1 11 ++ (1, .unlink) :: publishes 1) (by decide +kernel)
    refine ⟨_, t, tr, ⟨rfl, ?_⟩, h⟩
    intro name e he
    simp only [staleDirectory] at he
    split_ifs at he
    cases he
    rfl
  · obtain ⟨t, tr, h⟩ := exists_run_of_exec (s := emptyDirectory) (l := (0, .dropGuard true))
      ([(0, .start 10 []), (0, .list [])] ++ publishes 0 ++
        [(0, .dropListener), (1, .start 11 []), (1, .list [])] ++ publishes 1) (by decide +kernel)
    exact ⟨_, t, tr, ⟨rfl, by simp [emptyDirectory]⟩, h⟩

end Connect
