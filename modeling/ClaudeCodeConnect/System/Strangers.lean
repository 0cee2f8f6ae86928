import ClaudeCodeConnect.System.Sessions

/-!
# Strangers

Clients that do not present the token.  Whatever they do, and however many they are, a run can be
taken without them: their steps touch neither the editor's side, nor the tracker and the bus, nor
any other client.

* `SystemState.without` -- the state, as if some clients had never come.
* `step_without`, `stranger_step` -- a step of anyone else goes as before; a step of a stranger is
  not to be seen.
* `strangers_change_nothing` -- both, for whole runs.
-/

namespace Connect

variable {ι Path Url Time : Type}

/-- The step is one of these clients. -/
def SystemLabel.isOf (J : ι → Bool) : SystemLabel ι Path Time → Bool
  | .client i _ => J i
  | _ => false

/-- In the step one of these clients presents the token. -/
def Presents (env : Env Path Url) (J : ι → Bool) (l : SystemLabel ι Path Time) : Prop :=
  ∃ i headers written, l = .client i (.connect headers written) ∧ J i = true ∧
    presented headers = some env.authToken

/-- As if these clients had never come. -/
def SystemState.without (s : SystemState ι Path Url Time) (J : ι → Bool) :
    SystemState ι Path Url Time :=
  { s with clients := fun i => if J i then Client.new else s.clients i }

/-- Not let in, and as a client that is not let in. -/
def Stranger (cancelled : Bool) (c : Client Path Url) : Prop :=
  c.access ≠ .authorized ∧ Orderly cancelled c

section Steps

variable {env : Env Path Url} {bus : EventBus Path Url} {cancelled : Bool}

/-- A stranger stays one, and does nothing to the bus. -/
lemma Stranger.moved {c d : Client Path Url} {move : ClientMove}
    {ls : List (TrackerLabel Path Url)} (h : Stranger cancelled c)
    (hmoved : ClientMoved env c bus cancelled move d ls)
    (hnot : ∀ headers written, move = .connect headers written →
      presented headers ≠ some env.authToken) : Stranger cancelled d ∧ ls = [] := by
  obtain ⟨haccess, horderly⟩ := h
  refine ⟨⟨fun hd => ?_, horderly.moved hmoved⟩, ?_⟩
  · rcases hmoved.access hd with hc | ⟨headers, written, hmove, hpresented⟩
    · exact haccess hc
    · exact hnot headers written hmove hpresented
  · cases hmoved with
    | request hselecting =>
        have hserving := (Client.serving_of_selecting hselecting).1
        exact absurd (horderly.authorized (Or.inr hserving)) haccess
    | publish hm =>
        rw [(horderly.served haccess).2.2] at hm
        cases hm
    | _ => rfl

variable [DecidableEq ι] {J : ι → Bool}

lemma update_without (s : SystemState ι Path Url Time) {i : ι} (hi : J i = false)
    (c : Client Path Url) :
    (fun j => if J j then Client.new else Function.update s.clients i c j)
      = Function.update (fun j => if J j then Client.new else s.clients j) i c := by
  funext j
  by_cases hij : j = i
  · subst hij
    simp [hi]
  · simp [Function.update_of_ne hij]

lemma update_stranger (s : SystemState ι Path Url Time) {i : ι} (hi : J i = true)
    (c : Client Path Url) :
    (fun j => if J j then Client.new else Function.update s.clients i c j)
      = fun j => if J j then Client.new else s.clients j := by
  funext j
  by_cases hij : j = i
  · subst hij
    simp [hi]
  · simp [Function.update_of_ne hij]

variable [DecidableEq Path] [DecidableEq Url] [DecidableEq Time]
  {s t : SystemState ι Path Url Time} {l : SystemLabel ι Path Time}

omit [DecidableEq ι] in
lemma takeFrame_without (s : SystemState ι Path Url Time) (fs : FileSystem Path Time)
    (body : List UInt8) (written : Bool) : (s.without J).takeFrame env fs body written
      = (s.takeFrame env fs body written).map fun t => t.without J := by
  have hserver : (s.without J).server = s.server := rfl
  have htracker : (s.without J).tracker = s.tracker := rfl
  rw [SystemState.takeFrame, SystemState.takeFrame, hserver, htracker]
  rcases s.server.turn env.libs fs body with _ | ⟨server, _ | reply⟩
  · rfl
  · simp only [Option.map_map]
    rfl
  · simp only [Option.map_map]
    cases written <;> rfl

/-- **A step of anyone else** goes as if they had never come. -/
lemma step_without (h : l.isOf J = false) (hl : (systemMachine ι Time env).step s l = some t) :
    (systemMachine ι Time env).step (s.without J) l = some (t.without J) := by
  cases l with
  | frame fs body written =>
      simp only [systemMachine, SystemState.step] at hl ⊢
      split_ifs at hl with hended
      rw [show (s.without J).lspEnded = s.lspEnded from rfl, if_neg hended, takeFrame_without, hl,
        Option.map_some]
  | lspEnds =>
      cases hl
      rfl
  | task move =>
      simp only [systemMachine, SystemState.step, SystemState.without] at hl ⊢
      split_ifs at hl ⊢
      obtain ⟨tracker, htracker, rfl⟩ := Option.map_eq_some_iff.mp hl
      rw [htracker]
      rfl
  | trackerEnds =>
      simp only [systemMachine, SystemState.step] at hl ⊢
      split_ifs at hl with hends
      cases hl
      exact if_pos hends
  | client i move =>
      have hi : J i = false := h
      simp only [systemMachine, SystemState.step, Option.bind_eq_some_iff] at hl ⊢
      obtain ⟨moved, hmoved, hl⟩ := hl
      obtain ⟨tracker, htracker, rfl⟩ := Option.map_eq_some_iff.mp hl
      refine ⟨moved, ?_, ?_⟩
      · simp only [SystemState.without, hi, Bool.false_eq_true, if_false]
        exact hmoved
      · rw [show (s.without J).tracker = s.tracker from rfl, htracker, Option.map_some]
        simp only [SystemState.without, update_without s hi]
  | cancel =>
      cases hl
      rfl

/-- **A step of a stranger** is not to be seen. -/
lemma stranger_step {i : ι} {move : ClientMove} (hi : J i = true)
    (hs : Stranger s.cancelled (s.clients i))
    (hnot : ¬Presents env J (.client i move : SystemLabel ι Path Time))
    (hl : (systemMachine ι Time env).step s (.client i move) = some t) :
    t.without J = s.without J := by
  cases systemMoved_of_step hl with
  | stop hclient => exact absurd rfl (hclient i move)
  | @client _ _ c ls tracker hmoved hexec =>
      obtain ⟨-, rfl⟩ := hs.moved hmoved fun headers written hmove hpresented =>
        hnot ⟨i, headers, written, by rw [hmove], hi, hpresented⟩
      cases hexec
      simp only [SystemState.without, update_stranger s hi]

/-- Strangers stay strangers, whoever moves. -/
lemma strangers_step (hs : ∀ i, J i = true → Stranger s.cancelled (s.clients i))
    (hnot : ¬Presents env J l) (hl : (systemMachine ι Time env).step s l = some t) {i : ι}
    (hi : J i = true) : Stranger t.cancelled (t.clients i) := by
  have hmono : Stranger s.cancelled (t.clients i) → Stranger t.cancelled (t.clients i) := fun h =>
    ⟨h.1, h.2.mono (cancelled_step hl)⟩
  cases systemMoved_of_step hl with
  | stop _ _ _ hclients _ => exact hmono (hclients ▸ hs i hi)
  | frame _ _ _ hclients _ => exact hmono (hclients ▸ hs i hi)
  | task => exact hs i hi
  | @client j move c ls tracker hmoved _ =>
      by_cases hij : i = j
      · subst hij
        simp only [Function.update_self]
        exact ((hs i hi).moved hmoved fun headers written hmove hpresented =>
          hnot ⟨i, headers, written, by rw [hmove], hi, hpresented⟩).1
      · simp only [Function.update_of_ne hij]
        exact hs i hi

end Steps

/-- The second state is the first, as if these clients had never come; and they are strangers. -/
def Unseen (J : ι → Bool) (s u : SystemState ι Path Url Time) : Prop :=
  u = s.without J ∧ ∀ i, J i = true → Stranger s.cancelled (s.clients i)

/-- **Strangers change nothing.**  Take any run, and any set of clients none of which presents the
token in it.  The run can be taken without their steps: with the same frames, the same steps of the
task, the same steps of all other clients, it ends in the same state, but for the strangers
themselves.  And nothing of what they sent was read, nor were they sent anything but that they are
refused. -/
theorem strangers_change_nothing [DecidableEq ι] [DecidableEq Path] [DecidableEq Url]
    [DecidableEq Time] {env : Env Path Url} {s t : SystemState ι Path Url Time}
    {tr : List (SystemState ι Path Url Time × SystemLabel ι Path Time)}
    (hs : (systemMachine ι Time env).init s) (h : (systemMachine ι Time env).Run s tr t)
    (J : ι → Bool) (hJ : ∀ x ∈ tr, ¬Presents env J x.2) :
    (∃ tr', (systemMachine ι Time env).Run s tr' (t.without J) ∧
      tr'.map Prod.snd = (tr.map Prod.snd).filter fun l => !l.isOf J) ∧
    ∀ i, J i = true → (t.clients i).heard = [] ∧
      ((t.clients i).sent = [] ∨ (t.clients i).sent = [refusal]) := by
  obtain ⟨capacity, rfl⟩ := hs
  have hnew : (SystemState.new capacity : SystemState ι Path Url Time).without J
      = SystemState.new capacity := by
    simp only [SystemState.without, SystemState.new, ite_self]
  have hstart : Unseen J (SystemState.new capacity : SystemState ι Path Url Time)
      (SystemState.new capacity) :=
    ⟨hnew.symm, fun i _ => ⟨by simp [SystemState.new, Client.new], Orderly.new⟩⟩
  have hhidden : ∀ (s : SystemState ι Path Url Time) (l : SystemLabel ι Path Time) s' u,
      Unseen J s u → ¬Presents env J l → l.isOf J = true →
      (systemMachine ι Time env).step s l = some s' → Unseen J s' u := by
    rintro s l s' u ⟨rfl, hclients⟩ hnot hl hstep
    refine ⟨?_, fun i hi => strangers_step hclients hnot hstep hi⟩
    cases l with
    | client i move =>
        have hi : J i = true := hl
        exact (stranger_step hi (hclients i hi) hnot hstep).symm
    | _ => cases hl
  have hvisible : ∀ (s : SystemState ι Path Url Time) (l : SystemLabel ι Path Time) s' u,
      Unseen J s u → ¬Presents env J l → l.isOf J = false →
      (systemMachine ι Time env).step s l = some s' →
      ∃ u', (systemMachine ι Time env).step u l = some u' ∧ Unseen J s' u' := by
    rintro s l s' u ⟨rfl, hclients⟩ hnot hl hstep
    exact ⟨_, step_without hl hstep, rfl, fun i hi => strangers_step hclients hnot hstep hi⟩
  obtain ⟨t', tr', hrun, hlabels, rfl, hstrangers⟩ :=
    Machine.Simulation.erase (SystemLabel.isOf J) hhidden hvisible hstart h hJ
  exact ⟨⟨tr', hrun, hlabels⟩, fun i hi => (hstrangers i hi).2.refused (hstrangers i hi).1⟩

/-- A stranger connects, is refused and goes; a client that presents the token is let in. -/
def strangerFirst : List (SystemLabel Bool Text Unit) :=
  [.client false (.connect [] true), .client false .drop,
    .client true (.connect
      [("X-Claude-Code-Ide-Authorization".toList, Text.bytes "token".toList)] true),
    .client true .subscribe]

theorem strangers_change_nothing_strangerFirst :
    ∃ (s t : SystemState Bool Text Text Unit)
        (tr tr' : List (SystemState Bool Text Text Unit × SystemLabel Bool Text Unit)),
      (systemMachine Bool Unit textEnv).Run s tr t ∧ (t.clients true).access = .authorized ∧
        (systemMachine Bool Unit textEnv).Run s tr' (t.without fun i => !i) ∧ tr'.length = 2 := by
  have hexec : ((systemMachine Bool Unit textEnv).exec (SystemState.new 8) strangerFirst).map
      (fun t => decide ((t.clients true).access = .authorized)) = some true := by decide +kernel
  obtain ⟨t, ht, haccess⟩ := Option.map_eq_some_iff.mp hexec
  have h := Machine.run_of_exec _ ht
  have hlabels := Machine.steps_labels _ ht
  obtain ⟨⟨tr', hrun, htr'⟩, -⟩ := strangers_change_nothing ⟨8, rfl⟩ h (fun i => !i) (by
    rintro x hx ⟨i, headers, written, heq, hi, hpresented⟩
    have hmem : x.2 ∈ strangerFirst := hlabels ▸ List.mem_map_of_mem hx
    rw [heq, strangerFirst] at hmem
    simp only [List.mem_cons, SystemLabel.client.injEq, ClientMove.connect.injEq, reduceCtorEq,
      and_false, List.not_mem_nil, or_false, false_or] at hmem
    rcases hmem with ⟨-, rfl, -⟩ | ⟨rfl, -⟩
    · cases hpresented
    · cases hi)
  refine ⟨_, t, _, tr', h, of_decide_eq_true haccess, hrun, ?_⟩
  rw [hlabels] at htr'
  rw [← List.length_map Prod.snd, htr']
  rfl

end Connect
