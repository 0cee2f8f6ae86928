import ClaudeCodeConnect.Core.Simulation
import ClaudeCodeConnect.Install.Launch

/-!
# Starting without a network

A release that was installed once stays there to fall back on, through updates that are cut short,
downloads that fail and cleanups.

* `languageServerCommand` -- the command Zed is given.
* `Candidate`, `Installed` -- what `existing_binaries` accepts of the directory.
* `Event.On` -- what happens is on one platform, and its releases are tagged as the workflow tags
  them.
* `serverBinary_keeps` -- a resolution leaves a candidate there after each of its steps.
* `starts_offline_once_started` -- so a later session has one.
-/

namespace Connect.Launch

open Interruptible

/-! ## The command

What Zed asks for: the resolved binary, with the arguments from the settings or the default ones. -/

/-- `Command`; its environment is empty. -/
structure Command where
  command : Text
  args : List Text
  deriving DecidableEq, Repr

/-- `language_server_command`, with the arguments in the settings of the worktree and the path of
its root. -/
def languageServerCommand (a : Answers) (arguments : Option (List Text)) (rootPath id : Text) :
    Interruptible Workdir (Except Text Command) :=
  if id ≠ serverId then return .error ("Unknown language server: ".toList ++ id)
  else do
    match ← serverBinary a with
    | .error e => return .error e
    | .ok answer =>
      let args := arguments.getD ["--worktree".toList, rootPath, "serve".toList]
      return .ok ⟨answer.1, args⟩

/-- For the server it knows, the command runs what was resolved. -/
lemma languageServerCommand_value (a : Answers) (arguments : Option (List Text)) (rootPath : Text)
    (s : Workdir) : (languageServerCommand a arguments rootPath serverId s).value
      = (serverBinary a s).value.map fun answer =>
          ⟨answer.1, arguments.getD ["--worktree".toList, rootPath, "serve".toList]⟩ := by
  rw [languageServerCommand, if_neg (not_not_intro rfl), bind_apply]
  cases (serverBinary a s).value <;> rfl

/-! ## Candidates

A directory that has a candidate keeps one: it goes only after another has been put in its place. -/

/-- What `existing_binaries` accepts. -/
def Candidate (asset path : Text) : Prop :=
  '/' ∉ path ∧ (path = asset ∨ isVersionedBinary asset path = true)

/-- Some candidate is in the directory. -/
def Installed (asset : Text) (s : Workdir) : Prop := ∃ path ∈ s.files, Candidate asset path

/-- What the session remembers is a candidate from the release tier, or comes from `PATH`. -/
def Named (asset : Text) (s : Workdir) : Prop :=
  ∀ path origin, s.cached = some (path, origin) →
    origin = .release ∧ Candidate asset path ∨ origin = .path

/-- What a resolution keeps, if there was a candidate (`p`) and if there was none. -/
def Keeps (asset : Text) (p : Prop) (s : Workdir) : Prop := Named asset s ∧ (p → Installed asset s)

/-- A candidate has been put in place. -/
def Put (asset versioned : Text) (s : Workdir) : Prop := Named asset s ∧ versioned ∈ s.files

section Candidates

variable {asset path versioned : Text} {p : Prop} {s : Workdir}

lemma mem_cachedBinaries_iff :
    path ∈ cachedBinaries asset s.files ↔ path ∈ s.files ∧ Candidate asset path :=
  mem_cachedBinaries

lemma not_candidate_downloadTempName (hasset : IsAsset asset) (path : Text) :
    ¬Candidate asset (downloadTempName path) := by
  rintro ⟨-, heq | hv⟩
  · exact not_buildName_downloadTempName path ⟨asset, hasset, .inl heq⟩
  · rw [not_isVersionedBinary_downloadTempName] at hv
    exact absurd hv Bool.false_ne_true

/-- An asset's name is one of a file in the directory. -/
lemma slash_notMem (hasset : IsAsset asset) : '/' ∉ asset := by
  rcases hasset.eq with rfl | rfl | rfl | rfl <;> decide +kernel

/-- What is installed of a release is a candidate, the release being tagged `v` and something. -/
lemma candidate_versionedName (hasset : IsAsset asset) {rest : Text} (hslash : '/' ∉ rest)
    (hend : ¬downloadSuffix <:+ 'v' :: rest) :
    Candidate asset (versionedName asset ('v' :: rest)) := by
  refine ⟨?_, .inr (isVersionedBinary_iff.mpr ⟨rest, rfl, ?_⟩)⟩
  · simp [versionedName, slash_notMem hasset, hslash]
  · intro h
    have happ : downloadSuffix <:+ [] ++ '-' :: 'v' :: rest := by simpa using h
    exact hend (downloadSuffix_suffix_append_iff.mp happ)

lemma Put.keeps (h : Put asset versioned s) (hcandidate : Candidate asset versioned) :
    Keeps asset p s :=
  ⟨h.1, fun _ => ⟨versioned, h.2, hcandidate⟩⟩

lemma Keeps.create (h : Keeps asset p s) (path : Text) : Keeps asset p (s.create path) := by
  refine ⟨h.1, fun hp => ?_⟩
  obtain ⟨path', hmem, hcandidate⟩ := h.2 hp
  exact ⟨path', List.mem_append_left _ hmem, hcandidate⟩

/-- Removing what is no candidate leaves one. -/
lemma Keeps.remove (h : Keeps asset p s) (hpath : ¬Candidate asset path) (removed : Bool) :
    Keeps asset p (s.remove removed path) := by
  refine ⟨h.1, fun hp => ?_⟩
  obtain ⟨path', hmem, hcandidate⟩ := h.2 hp
  refine ⟨path', ?_, hcandidate⟩
  have hne : path' ≠ path := by
    rintro rfl
    exact hpath hcandidate
  show path' ∈ removeFile removed path s.files
  rw [removeFile]
  split_ifs
  · exact List.mem_filter.mpr ⟨hmem, by simpa using hne⟩
  · exact hmem

/-- So does removing another file than the one put in place. -/
lemma Put.remove (h : Put asset versioned s) (hne : versioned ≠ path) (removed : Bool) :
    Put asset versioned (s.remove removed path) := by
  refine ⟨h.1, ?_⟩
  show versioned ∈ removeFile removed path s.files
  rw [removeFile]
  split_ifs
  · exact List.mem_filter.mpr ⟨h.2, by simpa using hne⟩
  · exact h.2

lemma Keeps.remember {answer : Text × Origin} (h : Keeps asset p s)
    (hanswer : answer.2 = .release ∧ Candidate asset answer.1 ∨ answer.2 = .path) :
    Keeps asset p (s.remember answer) := by
  refine ⟨fun path origin hpath => ?_, h.2⟩
  obtain rfl : answer = (path, origin) := Option.some.inj hpath
  exact hanswer

lemma Keeps.newSession (h : Keeps asset p s) : Keeps asset p s.newSession :=
  ⟨by simp [Named, Workdir.newSession], h.2⟩

end Candidates

/-! ## What one resolution keeps

One triple for each function of the resolution, as in `Launch`; from the rename on the candidate
that is kept is the new build, and the cleanup takes the others. -/

section Resolution

variable (a : Answers) {asset versioned : Text} {p : Prop}

lemma setStatus_keeps (status : InstallationStatus) :
    Triple (Keeps asset p) (step (·.setStatus status)) (Keeps asset p) fun _ => Keeps asset p :=
  triple_step fun _ h => ⟨h, h⟩

lemma remove_keeps (hasset : IsAsset asset) (removed : Bool) (path : Text) :
    Triple (Keeps asset p) (step (·.remove removed (downloadTempName path))) (Keeps asset p)
      fun _ => Keeps asset p :=
  triple_step fun _ h =>
    have hkept := h.remove (not_candidate_downloadTempName hasset path) removed
    ⟨hkept, hkept⟩

lemma downloadFile_keeps (url temp : Text) :
    Triple (Keeps asset p) (downloadFile a url temp) (Keeps asset p) fun _ => Keeps asset p := by
  have hcreate : Triple (Keeps asset p) (step (·.create temp)) (Keeps asset p)
      fun _ => Keeps asset p :=
    triple_step fun s h => ⟨h.create temp, h.create temp⟩
  rw [downloadFile]
  cases a.downloadFile url with
  | error e =>
      refine triple_bind ?_ fun _ => triple_pure fun s (h : Keeps asset p s) => h
      cases a.leavesDownload with
      | true => exact hcreate
      | false => exact triple_pure fun s h => h
  | ok u =>
      refine triple_bind hcreate fun _ => ?_
      exact triple_bind (triple_step fun s h => ⟨h, h⟩) fun _ =>
        triple_pure fun s (h : Keeps asset p s) => h

/-- The rename puts the build in place; up to it, what there was is there. -/
lemma download_keeps (hcandidate : Candidate asset versioned) (url : Text) :
    Triple (Keeps asset p) (download a url versioned) (Keeps asset p)
      (onResult (fun _ => Put asset versioned) fun _ => Keeps asset p) := by
  refine triple_bind (downloadFile_keeps a url _) ?_
  rintro (e | u)
  · exact triple_pure fun s h => h
  · cases a.makeFileExecutable (downloadTempName versioned) with
    | error e => exact triple_pure fun s h => h
    | ok u =>
        cases a.rename with
        | error e => exact triple_pure fun s h => h
        | ok u =>
            refine triple_bind (triple_step fun s h => ?_) fun _ => triple_pure fun s h => h
            have hput : Put asset versioned (s.rename (downloadTempName versioned) versioned) :=
              ⟨h.1, List.mem_append_right _ (List.mem_singleton_self _)⟩
            exact ⟨hput.keeps hcandidate, hput⟩

/-- The cleanup takes every candidate but the one just put in place. -/
lemma removeOld_keeps (hcandidate : Candidate asset versioned) :
    Triple (Put asset versioned) (removeOld a asset versioned) (Keeps asset p)
      fun _ => Put asset versioned := by
  refine triple_bind triple_read fun s => ?_
  have hloop : Triple (Put asset versioned)
      (((cachedBinaries asset s.files).filter (· ≠ versioned)).forM fun old =>
        step (·.remove (a.removeFile old) old)) (Keeps asset p) fun _ => Put asset versioned := by
    refine triple_forM (fun _ => Put asset versioned) fun done old rest hl => ?_
    refine triple_step fun t ht => ?_
    have hold : old ∈ (cachedBinaries asset s.files).filter (· ≠ versioned) := by
      rw [hl]
      simp
    have hne : versioned ≠ old := by
      rintro rfl
      simpa using List.of_mem_filter hold
    have hput := ht.remove hne (a.removeFile old)
    exact ⟨hput.keeps hcandidate, hput⟩
  exact triple_mono hloop (fun t ht => ht.2) (fun t ht => ht) fun _ t ht => ht

lemma refreshStableCopy_keeps (hcandidate : Candidate asset versioned) :
    Triple (Put asset versioned) (refreshStableCopy a versioned) (Keeps asset p)
      fun _ => Put asset versioned := by
  have hcreate : Triple (Put asset versioned) (step (·.create stableName)) (Keeps asset p)
      fun _ => Put asset versioned := by
    refine triple_step fun s h => ?_
    have hput : Put asset versioned (s.create stableName) := ⟨h.1, List.mem_append_left _ h.2⟩
    exact ⟨hput.keeps hcandidate, hput⟩
  rw [refreshStableCopy]
  cases a.copy with
  | error e =>
      cases a.leavesCopy with
      | true => exact hcreate
      | false => exact triple_pure fun s h => h
  | ok u =>
      refine triple_bind hcreate fun _ => ?_
      exact triple_step fun s h => ⟨Put.keeps h hcandidate, h⟩

/-- A candidate that is there, which the release tier answers with. -/
def Offered (asset : Text) (p : Prop) (path : Text) (s : Workdir) : Prop :=
  Keeps asset p s ∧ path ∈ s.files ∧ Candidate asset path

lemma cachedFallback_keeps :
    Triple (Keeps asset p) (cachedFallback asset) (Keeps asset p) fun found s =>
      Keeps asset p s ∧ ∀ path, found = some path → Offered asset p path s := by
  refine triple_bind triple_read fun s => triple_pure fun t ht => ?_
  obtain ⟨rfl, ht⟩ := ht
  refine ⟨ht, fun path hpath => ⟨ht, ?_⟩⟩
  exact mem_cachedBinaries_iff.mp (fallbackBinary_mem hpath)

lemma downloadAsset_keeps (hasset : IsAsset asset) (hcandidate : Candidate asset versioned)
    (found : GithubReleaseAsset) :
    Triple (Keeps asset p) (downloadAsset a asset versioned found) (Keeps asset p)
      (onResult (Offered asset p) fun _ => Keeps asset p) := by
  refine triple_bind (remove_keeps hasset _ versioned) fun _ => ?_
  refine triple_bind (download_keeps a hcandidate found.downloadUrl) ?_
  rintro (e | u)
  · refine triple_bind (remove_keeps hasset _ versioned) fun _ => ?_
    refine triple_bind (setStatus_keeps (.failed e)) fun _ => ?_
    refine triple_bind cachedFallback_keeps ?_
    rintro (_ | path)
    · exact triple_pure fun s h => h.1
    · exact triple_pure fun s h => h.2 path rfl
  · refine triple_bind (removeOld_keeps a hcandidate) fun _ => ?_
    refine triple_bind (refreshStableCopy_keeps a hcandidate) fun _ => ?_
    refine triple_bind (triple_step fun s h => ?_) fun _ => triple_pure fun s h => h
    have hkept : Keeps asset p (s.setStatus .none) := Put.keeps h hcandidate
    exact ⟨hkept, hkept, h.2, hcandidate⟩

/-- The platform is that of the asset, and the release is tagged `v` and something that can be in a
file's name. -/
structure Answers.On (asset : Text) : Prop where
  platform : assetPrefix a.toCalls = .ok asset
  tagged : ∀ release, a.latestGithubRelease = .ok release →
    ∃ rest, release.version = 'v' :: rest ∧ '/' ∉ rest

variable {a}

lemma Answers.On.isAsset (h : a.On asset) : IsAsset asset := ⟨_, _, h.platform⟩

lemma releaseBinary_keeps (h : a.On asset) :
    Triple (Keeps asset p) (releaseBinary a) (Keeps asset p)
      (onResult (Offered asset p) fun _ => Keeps asset p) := by
  have hasset := h.isAsset
  simp only [releaseBinary, h.platform]
  refine triple_bind (setStatus_keeps _) fun _ => ?_
  cases hlatest : a.latestGithubRelease with
  | error e =>
      refine triple_bind cachedFallback_keeps ?_
      rintro (_ | path)
      · exact triple_pure fun s h => h.1
      · exact triple_pure fun s h => h.2 path rfl
  | ok release =>
      have hcandidate : Candidate asset (versionedName asset release.version) := by
        obtain ⟨rest, hversion, hslash⟩ := h.tagged release hlatest
        rw [hversion]
        exact candidate_versionedName hasset hslash (hversion ▸ a.tag release hlatest)
      refine triple_bind triple_read fun s => ?_
      split_ifs with hhere
      · have hstored : Triple (fun t => s = t ∧ Keeps asset p t) (step (·.setStatus .none))
            (Keeps asset p) fun _ => Put asset (versionedName asset release.version) := by
          refine triple_step fun t ht => ?_
          obtain ⟨rfl, ht⟩ := ht
          exact ⟨ht, ht.1, List.contains_iff_mem.mp hhere⟩
        refine triple_bind hstored fun _ => ?_
        cases a.makeFileExecutable (versionedName asset release.version) with
        | error e => exact triple_pure fun t ht => ht.keeps hcandidate
        | ok u =>
            refine triple_bind (refreshStableCopy_keeps a hcandidate) fun _ => ?_
            exact triple_pure fun t ht => ⟨ht.keeps hcandidate, ht.2, hcandidate⟩
      · cases release.assets.find? (·.name == asset) with
        | none => exact triple_pure fun t ht => ht.2
        | some found =>
            refine triple_bind ?_ fun _ => downloadAsset_keeps a hasset hcandidate found
            exact triple_mono (setStatus_keeps _) (fun t ht => ht.2) (fun t ht => ht)
              fun _ t ht => ht

/-- What `server_binary` has answered with, or not. -/
def Kept (asset : Text) (p : Prop) : Except Text (Text × Origin) → Workdir → Prop :=
  onResult (fun answer s => Keeps asset p s ∧ (answer.2 = .release → Installed asset s))
    fun _ => Keeps asset p

lemma orOnPath_keeps (r : Except Text Text) :
    Triple (onResult (Offered asset p) (fun _ => Keeps asset p) r) (orOnPath a r) (Keeps asset p)
      (Kept asset p) := by
  cases r with
  | ok path =>
      refine triple_bind (triple_step fun s h => ?_) fun _ => triple_pure fun s h => h
      have hkept : Keeps asset p (s.remember (path, .release)) :=
        Keeps.remember h.1 (.inl ⟨rfl, h.2.2⟩)
      exact ⟨hkept, hkept, fun _ => ⟨path, h.2⟩⟩
  | error e =>
      rw [orOnPath]
      cases a.which with
      | some path =>
          refine triple_bind (triple_step fun s h => ?_) fun _ => triple_pure fun s h => h
          have horigin : Origin.path ≠ .release := by decide
          have hkept : Keeps asset p (s.remember (path, .path)) := Keeps.remember h (.inr rfl)
          exact ⟨hkept, hkept, fun hrelease => absurd hrelease horigin⟩
      | none => exact triple_bind (triple_step fun s h => ⟨h, h⟩) fun _ => triple_pure fun s h => h

/-- **A resolution leaves a candidate there after each of its steps**, if there was one; and if the
release tier answers, there is one. -/
theorem serverBinary_keeps (h : a.On asset) :
    Triple (Keeps asset p) (serverBinary a) (Keeps asset p) (Kept asset p) := by
  rw [serverBinary]
  cases a.settingsPath with
  | some path =>
      have horigin : Origin.settings ≠ .release := by decide
      exact triple_pure fun s h => ⟨h, fun hrelease => absurd hrelease horigin⟩
  | none =>
      refine triple_bind triple_read fun s => ?_
      cases hremembered : s.remembered with
      | some answer =>
          obtain ⟨hcached, hmem⟩ := Option.filter_eq_some_iff.mp hremembered
          refine triple_pure fun t ht => ?_
          obtain ⟨rfl, ht⟩ := ht
          refine ⟨ht, fun horigin => ⟨answer.1, by simpa using hmem, ?_⟩⟩
          rcases ht.1 answer.1 answer.2 hcached with ⟨-, hcandidate⟩ | hpath
          · exact hcandidate
          · exact absurd (horigin.symm.trans hpath) (by decide)
      | none =>
          refine triple_bind ?_ orOnPath_keeps
          exact triple_mono (releaseBinary_keeps h) (fun t ht => ht.2) (fun t ht => ht)
            fun _ t ht => ht

end Resolution

/-! ## Sessions

The run up to the call that succeeded, the call, and the run after it: from there on there is always
a candidate, and an offline resolution finds one. -/

/-- It is on the platform of the asset. -/
def Event.On (asset : Text) : Event → Prop
  | .call a => a.On asset
  | .crash a _ => a.On asset
  | .close => True
  | .elsewhere _ _ => True

section Sessions

variable {asset : Text} {s t : Workdir} {p : Prop}

lemma Kept.keeps {r : Except Text (Text × Origin)} (h : Kept asset p r s) : Keeps asset p s := by
  cases r with
  | ok answer => exact h.1
  | error e => exact h

lemma keeps_step {l : Event} (h : Keeps asset p s) (hon : l.On asset)
    (hstep : launchMachine.step s l = some t) : Keeps asset p t := by
  cases l with
  | call a =>
      cases hstep
      exact (serverBinary_keeps hon s h).2.keeps
  | crash a after =>
      obtain ⟨u, hu, rfl⟩ := Option.map_eq_some_iff.mp hstep
      exact ((serverBinary_keeps hon s h).1 u (List.mem_of_getElem? hu)).newSession
  | close =>
      cases hstep
      exact h.newSession
  | elsewhere path present =>
      obtain ⟨hhead, hstep⟩ := Option.ite_none_right_eq_some.mp hstep
      cases hstep
      cases present with
      | true => exact h.create path
      | false => exact h.remove (fun hcandidate => hcandidate.1 (List.mem_of_mem_head? hhead)) true

/-- A candidate that is there is found without a network, unless the session remembers a path from
`PATH`. -/
lemma serverBinary_offline {b : Answers} {e : Text} (h : Keeps asset True t) (hsound : Sound t)
    (hplatform : assetPrefix b.toCalls = .ok asset) (hsettings : b.settingsPath = none)
    (hoffline : b.latestGithubRelease = .error e) :
    ∃ answer, (serverBinary b t).value = .ok answer ∧
      (answer.1 ∈ cachedBinaries asset (serverBinary b t).last.files ∧
          (serverBinary b t).last.whole answer.1 = true ∨
        t.remembered = some (answer.1, .path)) := by
  cases hremembered : t.remembered with
  | some answer =>
      obtain ⟨hcached, hmem⟩ := Option.filter_eq_some_iff.mp hremembered
      have hpassage : serverBinary b t = ⟨[], .ok answer, t⟩ := by
        simp [serverBinary, hsettings, hremembered]
      rw [hpassage]
      refine ⟨answer, rfl, ?_⟩
      rcases h.1 answer.1 answer.2 hcached with ⟨-, hcandidate⟩ | hpath
      · have haccepted : answer.1 ∈ cachedBinaries asset t.files :=
          mem_cachedBinaries_iff.mpr ⟨by simpa using hmem, hcandidate⟩
        exact Or.inl ⟨haccepted, hsound.accepted ⟨_, _, hplatform⟩ haccepted⟩
      · exact Or.inr (by rw [← hpath])
  | none =>
      obtain ⟨path, hpath, hcandidate⟩ := h.2 trivial
      have hsome : (Connect.cachedFallback asset t.files).isSome = true :=
        cachedFallback_isSome_iff.mpr
          (List.ne_nil_of_mem (mem_cachedBinaries_iff.mpr ⟨hpath, hcandidate⟩))
      obtain ⟨found, hfound⟩ := Option.isSome_iff_exists.mp hsome
      have haccepted : found ∈ cachedBinaries asset t.files := fallbackBinary_mem hfound
      have hwhole : t.whole found = true := hsound.accepted ⟨_, _, hplatform⟩ haccepted
      have hanswered : (serverBinary b t).value = .ok (found, .release) ∧
          (serverBinary b t).last.files = t.files ∧ (serverBinary b t).last.whole = t.whole := by
        simp [serverBinary, hsettings, hremembered, releaseBinary, hplatform, hoffline,
          cachedFallback, Workdir.setStatus, hfound, orOnPath, Workdir.remember]
      refine ⟨(found, .release), hanswered.1, Or.inl ⟨?_, ?_⟩⟩
      · rw [hanswered.2.1]
        exact haccepted
      · rw [hanswered.2.2]
        exact hwhole

end Sessions

/-- **Once it has started, it starts offline.**  On one platform, whose releases are tagged `v` and
something: if `server_binary` has once answered from the release tier, then after any further calls,
updates, failures and kills at whichever step, with the release query failing and no path in the
settings, Zed gets a command to run; and it runs a build of the platform that is in the work
directory itself, and whole, unless the session remembers a path from `PATH` that is still there. -/
theorem starts_offline_once_started {s t u : Workdir} {tr : List (Workdir × Event)} {asset : Text}
    (hs : launchMachine.init s) (h : launchMachine.Run s tr t) (hon : ∀ x ∈ tr, x.2.On asset)
    {a b : Answers} {path e : Text} (hcalled : (u, .call a) ∈ tr)
    (hstarted : (serverBinary a u).value = .ok (path, .release))
    (hplatform : assetPrefix b.toCalls = .ok asset) (hsettings : b.settingsPath = none)
    (hoffline : b.latestGithubRelease = .error e) (arguments : Option (List Text))
    (rootPath : Text) :
    ∃ command, (languageServerCommand b arguments rootPath serverId t).value = .ok command ∧
      (command.command ∈ cachedBinaries asset (serverBinary b t).last.files ∧
          (serverBinary b t).last.whole command.command = true ∨
        t.remembered = some (command.command, .path)) := by
  obtain ⟨before, after, rfl⟩ := List.append_of_mem hcalled
  obtain ⟨v, hbefore, hcall, hafter⟩ := h.split rfl
  have hkeeps {p : Prop} {s t : Workdir} {tr : List (Workdir × Event)}
      (h : launchMachine.Run s tr t) (hs : Keeps asset p s) (hon : ∀ x ∈ tr, x.2.On asset) :
      Keeps asset p t :=
    h.preserves _ (fun _ l => l.On asset) (fun _ _ _ hk hl hstep => keeps_step hk hl hstep) hs hon
  -- up to the call, only what the session remembers matters
  have hu : Keeps asset False u :=
    hkeeps hbefore ⟨by simp [Named, hs.1], False.elim⟩ fun x hx =>
      hon x (List.mem_append_left _ hx)
  have hv : Keeps asset True v := by
    have hkept := (serverBinary_keeps (hon _ hcalled) u hu).2
    rw [hstarted] at hkept
    cases hcall
    exact ⟨hkept.1.1, fun _ => hkept.2 rfl⟩
  have ht : Keeps asset True t :=
    hkeeps hafter hv fun x hx => hon x (List.mem_append_right _ (List.mem_cons_of_mem _ hx))
  obtain ⟨answer, hvalue, hruns⟩ :=
    serverBinary_offline ht (sound_of_run hs h) hplatform hsettings hoffline
  exact ⟨_, by rw [languageServerCommand_value, hvalue]; rfl, hruns⟩

/-- A first start, and a second one that is cut short while the stable copy is made; in between, a
companion is installed by hand. -/
def restarts : List Event :=
  [.call updating, .close, .elsewhere "/usr/local/bin/claude-code-connect".toList true,
    .crash updating 2]

theorem starts_offline_once_started_restarts : ∃ t command,
    launchMachine.exec installed restarts = some t ∧ t.whole stableName = false ∧
      (languageServerCommand offline none "/p".toList serverId t).value = .ok command ∧
      command.command ∈ readDir (serverBinary offline t).last.files ∧
      (serverBinary offline t).last.whole command.command = true := by
  have htaken : (launchMachine.exec installed restarts).any (fun t =>
      !t.whole stableName && t.remembered.isNone) = true := by decide +kernel
  obtain ⟨t, ht, hfacts⟩ := (Option.any_eq_true _ _).mp htaken
  simp only [Bool.and_eq_true, Bool.not_eq_true', Option.isNone_iff_eq_none] at hfacts
  have hon : updating.On "claude-code-connect-linux-x86_64".toList := by
    refine ⟨rfl, ?_⟩
    rintro _ ⟨rfl⟩
    exact ⟨"0.2.0".toList, rfl, by decide⟩
  have hlabels := Machine.steps_labels _ ht
  have hevents : ∀ x ∈ launchMachine.steps installed restarts,
      x.2.On "claude-code-connect-linux-x86_64".toList := by
    intro x hx
    have hmem : x.2 ∈ restarts := hlabels ▸ List.mem_map_of_mem hx
    simp only [restarts, List.mem_cons, List.not_mem_nil, or_false] at hmem
    rcases hmem with heq | heq | heq | heq <;> rw [heq]
    · exact hon
    · trivial
    · trivial
    · exact hon
  have hstarted : (serverBinary updating installed).value
      = .ok ("claude-code-connect-linux-x86_64-v0.2.0".toList, .release) := by decide +kernel
  obtain ⟨command, hcommand, ⟨haccepted, hwhole⟩ | hpath⟩ :=
    starts_offline_once_started ⟨rfl, fun _ _ _ => rfl⟩ (Machine.run_of_exec _ ht) hevents
      List.mem_cons_self hstarted (b := offline) rfl rfl rfl none "/p".toList
  · exact ⟨t, command, ht, hfacts.1, hcommand, List.mem_of_mem_filter haccepted, hwhole⟩
  · rw [hfacts.2] at hpath
    cases hpath

end Connect.Launch
