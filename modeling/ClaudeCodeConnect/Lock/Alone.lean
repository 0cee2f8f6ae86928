import ClaudeCodeConnect.Lock.LockJson
import ClaudeCodeConnect.Lock.Undisturbed
import ClaudeCodeConnect.Lock.Unlink

/-!
# A sweep with nobody else about

`sweep_dead` removes entries of the directory that it is going through.  What it does in all, and
that the lock machine does the same.

* `LockDirFile.swept?`, `sweepDead_eq` -- the files that go, told one by one from the listing.
* `LockState.Lists` -- the machine's directory holds the locks of a listing.
* `LockState.sweepTo` -- how far a companion has come in its sweep, and what the directory is then.
* `LockState.Alone` -- one companion takes steps, and no other does.
* `sweepEntry_follows`, `sweepFiles_follow` -- one file, and the loop.
* `sweeps_alone` -- the whole sweep.
-/

namespace Connect

/-! ## What goes

`sweep_dead` removes from the list it goes through.  No name comes twice, so what it removes is what
it would of the list as it was. -/

section

variable (parse : Text → Option RawLock) (h : Host) (removes : List UInt8 → Bool) (ours : Text)

/-- The port of a lock that goes: it is ours, its process is gone, and it can be removed. -/
def LockDirFile.swept? (f : LockDirFile) : Option UInt16 := do
  let port ← (Text.fromUtf8 f.name).bind lockPort?
  let raw ← f.raw? parse
  if raw.ideName = ours ∧ h.pidIsAlive raw.pid = false ∧ removes f.name = true then some port
  else none

lemma sweepEntry_eq (s : Listing × List UInt16) (f : LockDirFile) :
    sweepEntry parse h removes ours s f = (f.swept? parse h removes ours).elim s fun port =>
      (s.1.remove f.name, s.2 ++ [port]) := by
  rw [sweepEntry, LockDirFile.swept?]
  cases (Text.fromUtf8 f.name).bind lockPort? with
  | none => rfl
  | some port =>
      cases f.raw? parse with
      | none => rfl
      | some raw =>
          simp only [Option.bind_eq_bind, Option.bind_some]
          split_ifs <;> rfl

lemma sweepFiles_eq (fs : List LockDirFile) (s : Listing × List UInt16) :
    (fs.foldl (sweepEntry parse h removes ours) s).1.files = s.1.files.filter (fun g =>
        decide (∀ f ∈ fs, f.swept? parse h removes ours ≠ none → g.name ≠ f.name)) ∧
      (fs.foldl (sweepEntry parse h removes ours) s).2
        = s.2 ++ fs.filterMap (LockDirFile.swept? parse h removes ours) := by
  induction fs generalizing s with
  | nil => simp
  | cons f fs ih =>
      obtain ⟨hfiles, hports⟩ := ih (sweepEntry parse h removes ours s f)
      rw [List.foldl_cons, hfiles, hports, sweepEntry_eq]
      cases hswept : f.swept? parse h removes ours with
      | none => simp [hswept]
      | some port => simp [hswept, Listing.remove, List.filter_filter, Bool.and_comm]

/-- **The files that go** are told from the listing, although it changes while the sweep goes
through it. -/
lemma sweepDead_eq (l : Listing) :
    (sweepDead parse h removes ours l).1.files
        = l.files.filter (fun f => (f.swept? parse h removes ours).isNone) ∧
      (sweepDead parse h removes ours l).2
        = l.files.filterMap (LockDirFile.swept? parse h removes ours) := by
  obtain ⟨hfiles, hports⟩ := sweepFiles_eq parse h removes ours l.files (l, [])
  refine ⟨?_, hports.trans (List.nil_append _)⟩
  rw [sweepDead, hfiles]
  refine List.filter_congr fun g hg => ?_
  rw [Bool.eq_iff_iff, decide_eq_true_eq, Option.isNone_iff_eq_none]
  constructor
  · intro hstays
    by_contra hgoes
    exact hstays g hg hgoes rfl
  · intro hstays f hf hgoes heq
    have hgf : g = f := List.inj_on_of_nodup_map l.nodup hg hf heq
    exact hgoes (hgf ▸ hstays)

end

/-! ## The machine

One companion steps, and nobody else.  The directory of the machine holds the files of the listing,
and each turn of the loop is the steps between two entries. -/

variable {ι : Type}

/-- The locks in the directory are those of the listing. -/
def LockState.Lists (s : LockState ι) (parse : Text → Option RawLock) (l : Listing) : Prop :=
  ∀ name raw, lockPort? name ≠ none → ((s.dir name).bind LockEntry.raw = some raw ↔
    ∃ f ∈ l.files, f.name = Text.bytes name ∧ f.raw? parse = some raw)

section

variable [DecidableEq ι]

/-- Companion `i` has come this far in its sweep. -/
def LockState.sweepTo (s : LockState ι) (i : ι) (phase : LockPhase) (dir : LockDirectory ι) :
    LockState ι :=
  ⟨dir, Function.update s.companions i { s.companions i with phase := phase }⟩

variable {s : LockState ι} {i : ι} {phase phase' : LockPhase} {dir dir' : LockDirectory ι}

@[simp] lemma LockState.sweepTo_phase :
    ((s.sweepTo i phase dir).companions i).phase = phase := by
  simp [LockState.sweepTo]

@[simp] lemma LockState.sweepTo_sweepTo :
    (s.sweepTo i phase dir).sweepTo i phase' dir' = s.sweepTo i phase' dir' := by
  simp [LockState.sweepTo]

end

section

variable {s : LockState ι} {parse : Text → Option RawLock} {l : Listing} {f : LockDirFile}
  {name : Text}

/-- Reading a file by its name reads the one that was listed. -/
lemma LockState.Lists.raw (hlists : s.Lists parse l) (hname : lockPort? name ≠ none)
    (hf : f ∈ l.files) (hfile : f.name = Text.bytes name) :
    (s.dir name).bind LockEntry.raw = f.raw? parse := by
  refine Option.ext fun raw => (hlists name raw hname).trans ⟨?_, fun hraw => ⟨f, hf, hfile, hraw⟩⟩
  rintro ⟨g, hg, hgname, hraw⟩
  rwa [← List.inj_on_of_nodup_map l.nodup hg hf (hgname.trans hfile.symm)]

/-- Unlinking a lock takes its file out of the listing. -/
lemma LockState.Lists.remove [DecidableEq ι] {i : ι} {phase : LockPhase}
    (hlists : s.Lists parse l) :
    (s.sweepTo i phase (Function.update s.dir name none)).Lists parse
      (l.remove (Text.bytes name)) := by
  intro name' raw hname'
  simp only [LockState.sweepTo, Listing.remove]
  by_cases heq : name' = name
  · subst heq
    rw [Function.update_self]
    refine iff_of_false nofun ?_
    rintro ⟨f, hf, hfile, -⟩
    simp [hfile] at hf
  · rw [Function.update_of_ne heq, hlists name' raw hname']
    have hbytes : Text.bytes name' ≠ Text.bytes name := fun hsame => heq <| by
      rw [← Option.some.injEq, ← Text.fromUtf8_bytes, hsame, Text.fromUtf8_bytes]
    constructor
    · rintro ⟨f, hf, hfile, hraw⟩
      exact ⟨f, by simp [hf, hfile, hbytes], hfile, hraw⟩
    · rintro ⟨f, hf, hfile, hraw⟩
      exact ⟨f, List.mem_of_mem_filter hf, hfile, hraw⟩

end

section

variable [Fintype ι] [DecidableEq ι]

/-- Steps of companion `i`, and of no other. -/
def LockState.Alone (i : ι) (s t : LockState ι) : Prop :=
  ∃ tr, (lockMachine ι).Run s tr t ∧ ∀ x ∈ tr, x.2.1 = i

variable {s t u : LockState ι} {i : ι} {parse : Text → Option RawLock} {h : Host}
  {elsewhere : UInt32 → Bool} {l : Listing} {f : LockDirFile} {name : Text} {names : List Text}

lemma LockState.Alone.step {m : LockMove} (hl : (lockMachine ι).step s (i, m) = some t)
    (h : LockState.Alone i t u) : LockState.Alone i s u := by
  obtain ⟨tr, hrun, hi⟩ := h
  exact ⟨_, .cons hl hrun, List.forall_mem_cons.mpr ⟨rfl, hi⟩⟩

lemma LockState.Alone.refl : LockState.Alone i s s := ⟨[], .nil, by simp⟩

lemma LockState.Alone.trans (h : LockState.Alone i s t) (h' : LockState.Alone i t u) :
    LockState.Alone i s u := by
  obtain ⟨tr, hrun, hi⟩ := h
  obtain ⟨tr', hrun', hi'⟩ := h'
  exact ⟨_, hrun.trans hrun', List.forall_mem_append.mpr ⟨hi, hi'⟩⟩

/-- A companion that sweeps is alive all the while, so that all processes are as they were. -/
lemma LockState.pidIsAlive_sweepTo {phase : LockPhase} {dir : LockDirectory ι}
    (hphase : (s.companions i).phase.inSweep = true) (hphase' : phase.inSweep = true)
    (pid : UInt32) (b : Bool) :
    (s.sweepTo i phase dir).pidIsAlive pid b = s.pidIsAlive pid b := by
  have halive (c : Companion) (hc : c.phase.inSweep = true) : c.alive = true := by
    rw [Companion.alive]
    split <;> simp_all [LockPhase.inSweep]
  have hsame (j : ι) : ((s.sweepTo i phase dir).companions j).alive = (s.companions j).alive ∧
      ((s.sweepTo i phase dir).companions j).pid = (s.companions j).pid := by
    by_cases hj : j = i
    · subst hj
      refine ⟨?_, by simp [LockState.sweepTo]⟩
      rw [halive _ (by simpa using hphase'), halive _ hphase]
    · simp [LockState.sweepTo, hj]
  simp only [LockState.pidIsAlive, (hsame _).1, (hsame _).2]

lemma LockState.step_sweepTo {m : LockMove} {phase : LockPhase} {dir : LockDirectory ι}
    (hmove : s.move i m = some ({ s.companions i with phase := phase }, dir)) :
    (lockMachine ι).step s (i, m) = some (s.sweepTo i phase dir) := by
  simp only [lockMachine, LockState.step, hmove, Option.map_some]
  rfl

/-- What is no lock of ours is passed by. -/
lemma LockState.step_read_other (hphase : (s.companions i).phase = .sweeping (name :: names))
    (hother : ∀ raw, lockPort? name ≠ none → (s.dir name).bind LockEntry.raw = some raw →
      raw.ideName ≠ ideName) :
    (lockMachine ι).step s (i, .read) = some (s.sweepTo i (.sweeping names) s.dir) := by
  refine LockState.step_sweepTo ?_
  simp only [LockState.move, hphase]
  split
  · rename_i port raw hport hraw
    exact if_neg (hother raw (by simp [hport]) hraw)
  · rfl

lemma LockState.step_read_ours (hphase : (s.companions i).phase = .sweeping (name :: names))
    {raw : RawLock} (hname : lockPort? name ≠ none)
    (hraw : (s.dir name).bind LockEntry.raw = some raw) (hours : raw.ideName = ideName) :
    (lockMachine ι).step s (i, .read) = some (s.sweepTo i (.judging name raw names) s.dir) := by
  obtain ⟨port, hport⟩ := Option.ne_none_iff_exists'.mp hname
  exact LockState.step_sweepTo (by simp [LockState.move, hphase, hport, hraw, hours])

lemma LockState.step_judge {raw : RawLock} {b : Bool}
    (hphase : (s.companions i).phase = .judging name raw names) :
    (lockMachine ι).step s (i, .judge b) = some (s.sweepTo i
      (if s.pidIsAlive raw.pid b then .sweeping names else .condemned name names) s.dir) := by
  refine LockState.step_sweepTo ?_
  simp only [LockState.move, hphase]
  split_ifs <;> rfl

lemma LockState.step_unlink (hphase : (s.companions i).phase = .condemned name names) :
    (lockMachine ι).step s (i, .unlink)
      = some (s.sweepTo i (.sweeping names) (Function.update s.dir name none)) :=
  LockState.step_sweepTo (by simp [LockState.move, hphase])

lemma LockState.step_skip (hphase : (s.companions i).phase = .condemned name names) :
    (lockMachine ι).step s (i, .skip) = some (s.sweepTo i (.sweeping names) s.dir) :=
  LockState.step_sweepTo (by simp [LockState.move, hphase])

/-- **One file.**  What the loop does in one turn the machine does in up to three steps. -/
lemma sweepEntry_follows (hphase : (s.companions i).phase = .sweeping (name :: names))
    (hlists : s.Lists parse l) (hf : f ∈ l.files) (hname : Text.fromUtf8 f.name = some name)
    (halive : ∀ pid, s.pidIsAlive pid (elsewhere pid) = h.pidIsAlive pid)
    (removes : List UInt8 → Bool) (ports : List UInt16) :
    ∃ dir, LockState.Alone i s (s.sweepTo i (.sweeping names) dir) ∧
      (s.sweepTo i (.sweeping names) dir).Lists parse
        (sweepEntry parse h removes ideName (l, ports) f).1 := by
  have hfile : f.name = Text.bytes name := Text.fromUtf8_eq_some_iff.mp hname
  have hkept : (s.sweepTo i (.sweeping names) s.dir).Lists parse l := hlists
  have hraw (hlock : lockPort? name ≠ none) : (s.dir name).bind LockEntry.raw = f.raw? parse :=
    hlists.raw hlock hf hfile
  by_cases hours : ∃ raw, lockPort? name ≠ none ∧ f.raw? parse = some raw ∧ raw.ideName = ideName
  · obtain ⟨raw, hlock, hread, hours⟩ := hours
    obtain ⟨port, hport⟩ := Option.ne_none_iff_exists'.mp hlock
    have hjudging := LockState.step_read_ours hphase hlock ((hraw hlock).trans hread) hours
    have hjudge := LockState.step_judge (s := s.sweepTo i (.judging name raw names) s.dir)
      (b := elsewhere raw.pid) LockState.sweepTo_phase
    rw [LockState.pidIsAlive_sweepTo (by rw [hphase]; rfl) rfl, halive,
      LockState.sweepTo_sweepTo] at hjudge
    simp only [sweepEntry, hname, Option.bind_some, hport, hread, hours, true_and]
    by_cases hlive : h.pidIsAlive raw.pid = true
    · rw [if_pos hlive] at hjudge
      rw [if_neg (by simp [hlive])]
      exact ⟨s.dir, .step hjudging (.step hjudge .refl), hkept⟩
    · rw [if_neg hlive] at hjudge
      by_cases hremoves : removes f.name = true
      · have hunlink := LockState.step_unlink (s := s.sweepTo i (.condemned name names) s.dir)
          LockState.sweepTo_phase
        rw [LockState.sweepTo_sweepTo] at hunlink
        rw [if_pos ⟨by simpa using hlive, hremoves⟩, hfile]
        exact ⟨_, .step hjudging (.step hjudge (.step hunlink .refl)), hlists.remove⟩
      · have hskip := LockState.step_skip (s := s.sweepTo i (.condemned name names) s.dir)
          LockState.sweepTo_phase
        rw [LockState.sweepTo_sweepTo] at hskip
        rw [if_neg (by simp [hremoves])]
        exact ⟨s.dir, .step hjudging (.step hjudge (.step hskip .refl)), hkept⟩
  · have hother (raw : RawLock) (hlock : lockPort? name ≠ none) (hread : f.raw? parse = some raw) :
        raw.ideName ≠ ideName := fun heq => hours ⟨raw, hlock, hread, heq⟩
    have hpast : sweepEntry parse h removes ideName (l, ports) f = (l, ports) := by
      rw [sweepEntry, hname, Option.bind_some]
      split
      · rename_i port raw hport hread
        rw [if_neg fun hsweep => hother raw (by simp [hport]) hread hsweep.1]
      · rfl
    rw [hpast]
    refine ⟨s.dir, .step (LockState.step_read_other hphase fun raw hlock hthere => ?_) .refl, hkept⟩
    exact hother raw hlock ((hraw hlock).symm.trans hthere)

/-- The loop over the files that are left. -/
lemma sweepFiles_follow (removes : List UInt8 → Bool) (fs : List LockDirFile)
    (acc : Listing × List UInt16)
    (hphase : (s.companions i).phase = .sweeping (fs.filterMap fun f => Text.fromUtf8 f.name))
    (hlists : s.Lists parse acc.1) (hfs : fs ⊆ acc.1.files)
    (hnodup : (fs.map LockDirFile.name).Nodup)
    (halive : ∀ pid, s.pidIsAlive pid (elsewhere pid) = h.pidIsAlive pid) :
    ∃ dir, LockState.Alone i s (s.sweepTo i (.sweeping []) dir) ∧
      (s.sweepTo i (.sweeping []) dir).Lists parse
        (fs.foldl (sweepEntry parse h removes ideName) acc).1 := by
  induction fs generalizing s acc with
  | nil =>
      have hsame : s.sweepTo i (.sweeping []) s.dir = s := by
        rw [LockState.sweepTo, ← List.filterMap_nil, ← hphase, Function.update_eq_self]
      refine ⟨s.dir, ?_⟩
      rw [hsame]
      exact ⟨.refl, hlists⟩
  | cons f fs ih =>
      obtain ⟨hf, hfs⟩ := List.cons_subset.mp hfs
      obtain ⟨hfirst, hnodup⟩ := List.nodup_cons.mp hnodup
      -- only the file at hand goes, and its name does not come again
      have hstay : fs ⊆ (sweepEntry parse h removes ideName acc f).1.files := by
        rw [sweepEntry_eq]
        cases f.swept? parse h removes ideName with
        | none => exact hfs
        | some port =>
            intro g hg
            have hother : g.name ≠ f.name := fun heq => hfirst (List.mem_map.mpr ⟨g, hg, heq⟩)
            simp [Listing.remove, hfs hg, hother]
      rw [List.foldl_cons]
      cases hname : Text.fromUtf8 f.name with
      | none =>
          have hpassed : sweepEntry parse h removes ideName acc f = acc := by
            simp [sweepEntry, hname]
          rw [hpassed]
          exact ih acc (by simpa [hname] using hphase) hlists hfs hnodup halive
      | some name =>
          obtain ⟨left, ports⟩ := acc
          simp only [List.filterMap_cons, hname] at hphase
          have hsweep : (s.companions i).phase.inSweep = true := by rw [hphase]; rfl
          obtain ⟨dir, halone, hlists⟩ :=
            sweepEntry_follows hphase hlists hf hname halive removes ports
          obtain ⟨dir', halone', hlists'⟩ := ih _ LockState.sweepTo_phase hlists hstay hnodup
            fun pid => (LockState.pidIsAlive_sweepTo hsweep rfl ..).trans (halive pid)
          rw [LockState.sweepTo_sweepTo] at halone' hlists'
          exact ⟨dir', halone.trans halone', hlists'⟩

/-- **A companion that sweeps, with nobody else about, does what `sweep_dead` does**: the files that
go are those of our locks whose process is gone and that can be removed, as they were listed before
any went, and their ports are returned in that order.  The lock machine comes by steps of this
companion alone to the end of its sweep, with no lock but those that `sweep_dead` leaves. -/
theorem sweeps_alone (removes : List UInt8 → Bool)
    (hphase : (s.companions i).phase = .started) (hlists : s.Lists parse l)
    (halive : ∀ pid, s.pidIsAlive pid (elsewhere pid) = h.pidIsAlive pid) :
    let swept := sweepDead parse h removes ideName l
    swept.1.files = l.files.filter (fun f => (f.swept? parse h removes ideName).isNone) ∧
      swept.2 = l.files.filterMap (LockDirFile.swept? parse h removes ideName) ∧
      ∃ dir, LockState.Alone i s (s.sweepTo i (.sweeping []) dir) ∧
        (s.sweepTo i (.sweeping []) dir).Lists parse swept.1 := by
  intro swept
  obtain ⟨hfiles, hports⟩ := sweepDead_eq parse h removes ideName l
  refine ⟨hfiles, hports, ?_⟩
  set names := l.files.filterMap fun f => Text.fromUtf8 f.name
  have hsweep : (s.companions i).phase.inSweep = true := by rw [hphase]; rfl
  have hlisted : (lockMachine ι).step s (i, .list names)
      = some (s.sweepTo i (.sweeping names) s.dir) :=
    LockState.step_sweepTo (by simp [LockState.move, hphase])
  have hlists' : (s.sweepTo i (.sweeping names) s.dir).Lists parse l := hlists
  obtain ⟨dir, halone, hswept⟩ := sweepFiles_follow removes l.files (l, [])
    LockState.sweepTo_phase hlists' (List.Subset.refl _) l.nodup
    fun pid => (LockState.pidIsAlive_sweepTo hsweep rfl ..).trans (halive pid)
  rw [LockState.sweepTo_sweepTo] at halone hswept
  exact ⟨dir, halone.step hlisted, hswept⟩

/-- The lock that process 99 left, and a file that is no lock. -/
def staleListing : Listing where
  files := [
    ⟨Text.bytes (lockFileName 8080),
      some (LockFile.toVec (LockFile.forThisProcess 99 "/p".toList [])), none⟩,
    ⟨Text.bytes "README".toList, none, none⟩]
  nodup := by decide +kernel

/-- Companion 0 has started, and finds this directory. -/
def startedOver (l : Listing) : LockState (Fin 2) where
  dir name := (l.files.find? fun f => f.name = Text.bytes name).map fun f =>
    ⟨f.raw? RawLock.fromStr, none⟩
  companions i := if i.val = 0 then ⟨10, [], .started, none, none⟩ else Companion.new

lemma startedOver_lists (l : Listing) : (startedOver l).Lists RawLock.fromStr l := by
  intro name raw _
  simp only [startedOver]
  cases hfind : l.files.find? fun f => f.name = Text.bytes name with
  | none =>
      refine iff_of_false (by simp) ?_
      rintro ⟨f, hf, hfile, -⟩
      simpa [hfile] using List.find?_eq_none.mp hfind f hf
  | some g =>
      have hg : g ∈ l.files := List.mem_of_find?_eq_some hfind
      have hgname : g.name = Text.bytes name := by simpa using List.find?_some hfind
      simp only [Option.map_some, Option.bind_some]
      constructor
      · exact fun hraw => ⟨g, hg, hgname, hraw⟩
      · rintro ⟨f, hf, hfile, hraw⟩
        rwa [List.inj_on_of_nodup_map l.nodup hg hf (hgname.trans hfile.symm)]

/-- The lock goes, and port 8080 is returned. -/
theorem sweeps_alone_stale :
    let h : Host := ⟨none, some, fun pid => pid == 10⟩
    (sweepDead RawLock.fromStr h (fun _ => true) ideName staleListing).2 = [8080] ∧
      ∃ t, LockState.Alone 0 (startedOver staleListing) t ∧
        (t.dir (lockFileName 8080)).bind LockEntry.raw = none := by
  intro h
  have halive : ∀ pid, (startedOver staleListing).pidIsAlive pid false = h.pidIsAlive pid := by
    intro pid
    have hlives : (∃ j, ((startedOver staleListing).companions j).alive = true ∧
        ((startedOver staleListing).companions j).pid = pid) ↔ pid = 10 := by
      simp [startedOver, Fin.exists_fin_two, Companion.alive, Companion.new, eq_comm (a := pid)]
    simp [LockState.pidIsAlive, hlives, Host.pidIsAlive, h, Bool.beq_eq_decide_eq]
  obtain ⟨hfiles, hports, dir, halone, hlists⟩ := sweeps_alone (fun _ => true)
    (s := startedOver staleListing) (i := 0) rfl (startedOver_lists staleListing) halive
  have hgone : staleListing.files.filter
      (fun f => (f.swept? RawLock.fromStr h (fun _ => true) ideName).isNone)
        = [⟨Text.bytes "README".toList, none, none⟩] := by
    decide +kernel
  have hswept : (staleListing.files.filterMap
      (LockDirFile.swept? RawLock.fromStr h (fun _ => true) ideName)) = [8080] := by
    decide +kernel
  refine ⟨hports.trans hswept, _, halone, Option.eq_none_iff_forall_ne_some.mpr fun raw hraw => ?_⟩
  obtain ⟨f, hf, hfile, -⟩ := (hlists _ raw (by rw [lockPort?_lockFileName]; simp)).mp hraw
  rw [hfiles, hgone, List.mem_singleton] at hf
  subst hf
  exact absurd hfile (by decide +kernel)

end

end Connect
