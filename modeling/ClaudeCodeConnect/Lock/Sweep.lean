import ClaudeCodeConnect.Core.Simulation
import ClaudeCodeConnect.Lock.Finding

/-!
# What a starting companion tidies up

`LockDir::sweep_dead` against what it is there for: the locks that were left by companions that were
killed are gone before the next one binds its port, whatever other companions do to the directory
meanwhile.

* `LockState.Buried` -- a step in which a process stays dead, and the sweep meets no error.
* `LockPhase.ToGo` -- a lock that the sweep has still to come to.
* `toGo_step`, `removed_step` -- one step: a lock that is there is still to come to, and once it is
  not there it does not come back.
* `sweep_removes_the_dead` -- in every run.
-/

namespace Connect

variable {ι : Type}

/-- This lock is still to be read, judged or unlinked. -/
def LockPhase.ToGo (name : Text) (raw : RawLock) : LockPhase → Prop
  | .sweeping names => name ∈ names
  | .judging name' raw' names => (name' = name ∧ raw' = raw) ∨ name ∈ names
  | .condemned name' names => name' = name ∨ name ∈ names
  -- it will never be bound
  | .dead => True
  | _ => False

/-- No companion has the process id, nor has anybody else when companion `i` asks, and `i` gives up
on no entry. -/
def LockState.Buried (s : LockState ι) (i : ι) (pid : UInt32) (l : ι × LockMove) : Prop :=
  (∀ j, (s.companions j).alive = true → (s.companions j).pid ≠ pid) ∧ l ≠ (i, .skip) ∧
    ∀ name raw names, l = (i, .judge true) → (s.companions i).phase = .judging name raw names →
      raw.pid ≠ pid

variable [Fintype ι] [DecidableEq ι] {s t u v : LockState ι} {i : ι} {l : ι × LockMove}
  {tr tr' : List (LockState ι × (ι × LockMove))} {name : Text} {e : LockEntry ι} {raw : RawLock}

/-- **A lock of the dead does not come back**: what is renamed into place names a process that
lives. -/
lemma removed_step (hs : LockInv s) (hburied : s.Buried i raw.pid l) (hname : lockPort? name ≠ none)
    (hraw : e.raw = some raw) (hl : (lockMachine ι).step s l = some t)
    (he : t.dir name = some e) : s.dir name = some e := by
  obtain ⟨k, m⟩ := l
  obtain ⟨c, dir, hm, rfl⟩ := moved_of_step hl
  by_cases hrename : ∃ port, m = .rename ∧ (s.companions k).phase = .wroteTmp port ∧
      name = lockFileName port
  · exfalso
    obtain ⟨port, rfl, hphase, rfl⟩ := hrename
    cases hm with
    | sweep hsweep => simp [hphase, LockPhase.inSweep] at hsweep
    | @rename p e' hphase' he' =>
        obtain rfl : p = port := by simpa [hphase] using hphase'.symm
        obtain ⟨-, e'', he'', hwriter⟩ := hs.of_wroteTmp hphase
        simp only [Function.update_self, Option.some.injEq] at he
        rw [he', he, Option.some.injEq] at he''
        obtain ⟨-, raw', hraw', hpid⟩ := hs.writer _ e (he ▸ he') k (he'' ▸ hwriter)
        rw [hraw, Option.some.injEq] at hraw'
        have halive : (s.companions k).alive = true := by simp [Companion.alive, hphase]
        exact hburied.1 k halive (by rw [hraw', hpid])
  · exact hm.dir_from hname he fun port hm hphase heq => hrename ⟨port, hm, hphase, heq⟩

/-- **A lock of the dead that is there is still to come to.** -/
lemma toGo_step (hs : LockInv s) (hburied : s.Buried i raw.pid l) (hname : lockPort? name ≠ none)
    (hraw : e.raw = some raw) (hours : raw.ideName = ideName)
    (h : s.dir name = some e → (s.companions i).phase.ToGo name raw)
    (hl : (lockMachine ι).step s l = some t) (he : t.dir name = some e) :
    (t.companions i).phase.ToGo name raw := by
  have hbefore : s.dir name = some e := removed_step hs hburied hname hraw hl he
  have hgo := h hbefore
  obtain ⟨k, m⟩ := l
  obtain ⟨⟨c, dir⟩, hmove, rfl⟩ := Option.map_eq_some_iff.mp hl
  by_cases hk : i = k
  · subst hk
    simp only [Function.update_self]
    cases m with
    | start | list | bind | writeTmp | rename | dropGuard | dropListener =>
        simp only [LockState.move] at hmove
        split at hmove
        · simp [*, LockPhase.ToGo] at hgo
        · cases hmove
    | read =>
        simp only [LockState.move] at hmove
        split at hmove
        · rename_i name' names hphase
          simp only [hphase, LockPhase.ToGo, List.mem_cons] at hgo
          by_cases hhere : name = name'
          · subst hhere
            obtain ⟨port, hport⟩ := Option.ne_none_iff_exists'.mp hname
            simp only [hport, hbefore, Option.bind_some, hraw, hours, if_true] at hmove
            cases hmove
            exact Or.inl ⟨rfl, rfl⟩
          · have hmem : name ∈ names := hgo.resolve_left hhere
            split at hmove
            · split_ifs at hmove <;> cases hmove
              · exact Or.inr hmem
              · exact hmem
            · cases hmove
              exact hmem
        · cases hmove
    | skip => exact absurd rfl hburied.2.1
    | judge elsewhere =>
        simp only [LockState.move] at hmove
        split at hmove
        · rename_i name' raw' names hphase
          simp only [hphase, LockPhase.ToGo] at hgo
          split_ifs at hmove with halive <;> cases hmove
          · refine hgo.resolve_left ?_
            rintro ⟨rfl, rfl⟩
            simp only [LockState.pidIsAlive, Bool.and_eq_true, Bool.or_eq_true,
              decide_eq_true_eq] at halive
            obtain ⟨-, helsewhere | ⟨j, hj, hpid⟩⟩ := halive
            · subst helsewhere
              exact hburied.2.2 _ _ _ rfl hphase rfl
            · exact hburied.1 j hj hpid
          · exact hgo.imp_left And.left
        · cases hmove
    | unlink =>
        simp only [LockState.move] at hmove
        split at hmove
        · rename_i name' names hphase
          cases hmove
          simp only [hphase, LockPhase.ToGo] at hgo
          refine hgo.resolve_left ?_
          rintro rfl
          simp at he
        · cases hmove
    | die =>
        simp only [LockState.move] at hmove
        split_ifs at hmove
        cases hmove
        trivial
  · simpa only [Function.update_of_ne hk] using hgo

/-- **A companion that binds its port has tidied up.**  In every run of any number of companions,
after one of them has listed the directory: if a process is dead and stays so, and no entry is given
up on for an I/O error, then once this companion has bound its port, none of the names it listed
holds a lock of ours for that process, and none ever will. -/
theorem sweep_removes_the_dead (hs : (lockMachine ι).init s) (h : (lockMachine ι).Run s tr u)
    {names : List Text} (hlist : (lockMachine ι).step u (i, .list names) = some v)
    (h' : (lockMachine ι).Run v tr' t) (hlisted : name ∈ names) (hname : lockPort? name ≠ none)
    (hraw : e.raw = some raw) (hours : raw.ideName = ideName)
    (hburied : ∀ x ∈ tr', x.1.Buried i raw.pid x.2) {port : UInt16}
    (hbound : (i, .bind port) ∈ tr'.map Prod.snd) : t.dir name ≠ some e := by
  obtain ⟨⟨w, _⟩, hmem, rfl⟩ := List.mem_map.mp hbound
  obtain ⟨before, after, rfl⟩ := List.append_of_mem hmem
  obtain ⟨x, hbefore, hbind, hafter⟩ := h'.split rfl
  have hv : LockInv v := lockInv_of_run hs (h.snoc hlist)
  have hphase : (v.companions i).phase = .sweeping names := by
    obtain ⟨⟨c, dir⟩, hmove, rfl⟩ := Option.map_eq_some_iff.mp hlist
    simp only [LockState.move] at hmove
    split at hmove <;> cases hmove
    simp
  -- up to the bind, if it is there, it is still to come to
  have hw : LockInv w ∧ (w.dir name = some e → (w.companions i).phase.ToGo name raw) := by
    refine hbefore.preserves
      (fun s => LockInv s ∧ (s.dir name = some e → (s.companions i).phase.ToGo name raw))
      (fun s l => s.Buried i raw.pid l) ?_ ⟨hv, fun _ => by rw [hphase]; exact hlisted⟩
      fun y hy => hburied y (List.mem_append_left _ hy)
    exact fun _ _ _ hi hb hl =>
      ⟨lockInv_step hi.1 hl, toGo_step hi.1 hb hname hraw hours hi.2 hl⟩
  have hswept : w.dir name ≠ some e := by
    intro hthere
    have hgo := hw.2 hthere
    obtain ⟨⟨c, dir⟩, hmove, -⟩ := Option.map_eq_some_iff.mp hbind
    simp only [LockState.move] at hmove
    split at hmove
    · simp [*, LockPhase.ToGo] at hgo
    · cases hmove
  -- and from then on it is not
  refine ((Machine.Run.cons hbind hafter).preserves
    (fun s => LockInv s ∧ s.dir name ≠ some e) (fun s l => s.Buried i raw.pid l) ?_
    ⟨hw.1, hswept⟩ fun y hy => hburied y (List.mem_append_right _ hy)).2
  exact fun _ _ _ hi hb hl =>
    ⟨lockInv_step hi.1 hl, fun he' => hi.2 (removed_step hi.1 hb hname hraw hl he')⟩

/-- A sweep, once the directory is listed, and the bind of a port. -/
def buries (i : ι) : List (ι × LockMove) :=
  [(i, .read), (i, .judge false), (i, .unlink), (i, .bind 9000)]

/-- The lock that process 99 left under port 8080 is swept. -/
theorem sweep_removes_the_dead_staleDirectory :
    ∃ (u v t : LockState (Fin 2)) (e : LockEntry (Fin 2)),
      (lockMachine (Fin 2)).exec staleDirectory [(0, .start 10 [])] = some u ∧
        (lockMachine (Fin 2)).step u (0, .list [lockFileName 8080]) = some v ∧
        (lockMachine (Fin 2)).exec v (buries 0) = some t ∧
        u.dir (lockFileName 8080) = some e ∧ t.dir (lockFileName 8080) ≠ some e := by
  have htaken : ((lockMachine (Fin 2)).exec staleDirectory [(0, .start 10 [])]).any (fun u =>
      u.dir (lockFileName 8080) == some ⟨some ⟨[], [], ideName, 99⟩, none⟩ &&
        ((lockMachine (Fin 2)).step u (0, .list [lockFileName 8080])).any fun v =>
          ((lockMachine (Fin 2)).exec v (buries 0)).isSome &&
            decide (∀ x ∈ (lockMachine (Fin 2)).steps v (buries 0), ∀ j,
              (x.1.companions j).alive = true → (x.1.companions j).pid ≠ 99)) = true := by
    decide +kernel
  obtain ⟨u, hu, hfacts⟩ := (Option.any_eq_true _ _).mp htaken
  obtain ⟨hstale, hfacts⟩ := (Bool.and_eq_true_iff).mp hfacts
  obtain ⟨v, hlist, hfacts⟩ := (Option.any_eq_true _ _).mp hfacts
  obtain ⟨hsome, hdead⟩ := (Bool.and_eq_true_iff).mp hfacts
  obtain ⟨t, ht⟩ := Option.isSome_iff_exists.mp hsome
  have hlabels := Machine.steps_labels _ ht
  have hburied : ∀ x ∈ (lockMachine (Fin 2)).steps v (buries 0), x.1.Buried 0 99 x.2 := by
    intro x hx
    have hmem : x.2 ∈ buries (0 : Fin 2) := hlabels ▸ List.mem_map_of_mem hx
    refine ⟨of_decide_eq_true hdead x hx, ?_, fun _ _ _ heq => ?_⟩
    · intro heq
      simp [heq, buries] at hmem
    · simp [heq, buries] at hmem
  have hinit : (lockMachine (Fin 2)).init staleDirectory := by
    refine ⟨rfl, fun name e he => ?_⟩
    simp only [staleDirectory] at he
    split_ifs at he
    cases he
    rfl
  have hbound : ((0 : Fin 2), LockMove.bind 9000) ∈
      ((lockMachine (Fin 2)).steps v (buries 0)).map Prod.snd := by
    rw [hlabels]
    simp [buries]
  refine ⟨u, v, t, _, hu, hlist, ht, beq_iff_eq.mp hstale, ?_⟩
  exact sweep_removes_the_dead hinit (Machine.run_of_exec _ hu) hlist (Machine.run_of_exec _ ht)
    (List.mem_singleton_self _) (by rw [lockPort?_lockFileName]; simp) rfl rfl hburied hbound

end Connect
