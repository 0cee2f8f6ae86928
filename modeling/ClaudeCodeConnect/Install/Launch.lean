import ClaudeCodeConnect.Core.Machine
import ClaudeCodeConnect.Install.Interrupted

/-!
# Only whole binaries are launched

The extension may be killed after any step of a resolution, in the middle of a download too, and a
new session finds the work directory as it was left.

* `BuildName` -- the names a build is stored under; no download in progress has one.
* `Sound` -- every file of such a name is whole, and so is what the session remembers of the release
  tier named.
* `serverBinary_triple` -- a resolution keeps the directory sound after each of its steps, and a
  path from the release tier is a build's that is there.
* `launchMachine` -- sessions, one after the other, with resolutions that end and resolutions that
  are cut short.
* `only_whole_launched` -- what is launched is whole.
-/

namespace Connect.Launch

open Interruptible

/-! ## Names

Which names a build can have.  A download in progress has none of them, nor has the stable copy, so
what is created or cut short under those two does no harm. -/

/-- The release asset of a platform. -/
def IsAsset (asset : Text) : Prop := ∃ os arch, assetName os arch = .ok asset

/-- A build is stored under the asset's name, or that with a tag. -/
def BuildName (path : Text) : Prop :=
  ∃ asset, IsAsset asset ∧
    (path = asset ∨ ∃ tag, ¬downloadSuffix <:+ tag ∧ path = versionedName asset tag)

/-- The suffix of a download is not cut by a hyphen. -/
lemma downloadSuffix_suffix_append_iff {before rest : Text} :
    downloadSuffix <:+ before ++ '-' :: rest ↔ downloadSuffix <:+ rest := by
  have hmem : '-' ∉ downloadSuffix := by decide
  have hrest : '-' :: rest <:+ before ++ '-' :: rest := List.suffix_append _ _
  constructor
  · intro h
    rcases List.suffix_or_suffix_of_suffix h hrest with h | h
    · rcases List.suffix_cons_iff.mp h with heq | h
      · exact absurd (heq ▸ List.mem_cons_self) hmem
      · exact h
    · exact absurd (h.mem List.mem_cons_self) hmem
  · exact fun h => h.trans ((List.suffix_cons _ _).trans hrest)

lemma IsAsset.eq {asset : Text} (h : IsAsset asset) :
    asset = "claude-code-connect-macos-aarch64".toList ∨
      asset = "claude-code-connect-macos-x86_64".toList ∨
      asset = "claude-code-connect-linux-x86_64".toList ∨
      asset = "claude-code-connect-linux-aarch64".toList := by
  obtain ⟨os, arch, h⟩ := h
  cases os <;> cases arch <;> simp only [assetName, Except.ok.injEq, reduceCtorEq] at h <;>
    simp [← h]

/-- A build is no download in progress. -/
lemma BuildName.not_downloading {path : Text} (h : BuildName path) : ¬downloadSuffix <:+ path := by
  obtain ⟨asset, hasset, rfl | ⟨tag, htag, rfl⟩⟩ := h
  · rcases hasset.eq with rfl | rfl | rfl | rfl <;> decide +kernel
  · rw [versionedName, downloadSuffix_suffix_append_iff]
    exact htag

lemma not_buildName_downloadTempName (path : Text) : ¬BuildName (downloadTempName path) :=
  fun h => h.not_downloading (List.suffix_append _ _)

/-- Every build's name is longer than the stable one, and begins like an asset's. -/
lemma BuildName.begins {path : Text} (h : BuildName path) : stableName ++ ['-'] <+: path := by
  have hasset {asset : Text} (h : IsAsset asset) : stableName ++ ['-'] <+: asset := by
    rcases h.eq with rfl | rfl | rfl | rfl <;> decide +kernel
  obtain ⟨asset, h, rfl | ⟨tag, -, rfl⟩⟩ := h
  · exact hasset h
  · exact (hasset h).trans (List.prefix_append _ _)

lemma not_buildName_stableName : ¬BuildName stableName := by
  intro h
  exact absurd h.begins.length_le (by simp)

/-- A build is in the work directory, so its path is not absolute. -/
lemma BuildName.head? {path : Text} (h : BuildName path) : path.head? ≠ some '/' := by
  have hhead : (stableName ++ ['-']).head? = some 'c' := by decide +kernel
  obtain ⟨rest, rfl⟩ := h.begins
  rw [List.head?_append, hhead, Option.some_or, ne_eq, Option.some.injEq]
  decide

/-- What `existing_binaries` accepts is named as a build. -/
lemma buildName_of_accepted {asset path : Text} {files : List Text} (hasset : IsAsset asset)
    (h : path ∈ cachedBinaries asset files) : path ∈ files ∧ BuildName path := by
  obtain ⟨hmem, -, rfl | hv⟩ := mem_cachedBinaries.mp h
  · exact ⟨hmem, _, hasset, .inl rfl⟩
  · obtain ⟨rest, rfl, hend⟩ := isVersionedBinary_iff.mp hv
    have htag : ¬downloadSuffix <:+ 'v' :: rest := fun h => hend (h.trans (List.suffix_cons _ _))
    exact ⟨hmem, asset, hasset, .inr ⟨'v' :: rest, htag, rfl⟩⟩

/-- What `fallback_binary` gives is one of the names. -/
lemma fallbackBinary_mem {asset path : Text} {names : List Text}
    (h : fallbackBinary asset names = some path) : path ∈ names := by
  by_cases hv : ∃ name ∈ names, isVersionedBinary asset name = true
  · obtain ⟨name, hmem, -, hfall, -⟩ := fallbackBinary_eq_some_of_versioned hv
    rw [hfall, Option.some.injEq] at h
    exact h ▸ hmem
  · have hnone : ∀ name ∈ names, isVersionedBinary asset name = false := by
      simpa using hv
    rw [fallbackBinary_of_not_versioned hnone] at h
    split_ifs at h with hmem
    cases h
    exact hmem

/-! ## Sound directories

What each change to the directory keeps: a file is created, filled and removed under names that no
build has, and a build appears by a rename only. -/

/-- Every build is whole, and what the session remembers of the release tier is a build's name. -/
structure Sound (s : Workdir) : Prop where
  whole : ∀ path ∈ s.files, BuildName path → s.whole path = true
  cached : ∀ path, s.cached = some (path, .release) → BuildName path

section Steps

variable {s : Workdir} {path source target : Text}

lemma Sound.create (h : Sound s) (hpath : ¬BuildName path) : Sound (s.create path) := by
  refine ⟨fun p hp hbuild => ?_, h.cached⟩
  have hne : p ≠ path := by
    rintro rfl
    exact hpath hbuild
  have hp : p ∈ s.files := by
    rcases List.mem_append.mp hp with hp | hp
    · exact hp
    · exact absurd (List.mem_singleton.mp hp) hne
  show Function.update s.whole path false p = true
  rw [Function.update_of_ne hne]
  exact h.whole p hp hbuild

lemma Sound.fill {whole : Bool} (h : Sound s) (hpath : ¬BuildName path) :
    Sound (s.fill path whole) := by
  refine ⟨fun p hp hbuild => ?_, h.cached⟩
  have hne : p ≠ path := by
    rintro rfl
    exact hpath hbuild
  show Function.update s.whole path whole p = true
  rw [Function.update_of_ne hne]
  exact h.whole p hp hbuild

lemma mem_removeFile {removed : Bool} {p : Text} {files : List Text}
    (hp : p ∈ removeFile removed path files) : p ∈ files := by
  rw [removeFile] at hp
  split_ifs at hp
  · exact List.mem_of_mem_filter hp
  · exact hp

lemma Sound.remove {removed : Bool} (h : Sound s) : Sound (s.remove removed path) :=
  ⟨fun p hp hbuild => h.whole p (mem_removeFile hp) hbuild, h.cached⟩

/-- A build comes into being by a rename, and what is renamed is whole. -/
lemma Sound.rename (h : Sound s) (hwhole : s.whole source = true) :
    Sound (s.rename source target) := by
  refine ⟨fun p hp hbuild => ?_, h.cached⟩
  show Function.update s.whole target (s.whole source) p = true
  by_cases hne : p = target
  · rw [hne, Function.update_self]
    exact hwhole
  · rw [Function.update_of_ne hne]
    rcases List.mem_append.mp hp with hp | hp
    · exact h.whole p (List.mem_of_mem_filter hp) hbuild
    · exact absurd (List.mem_singleton.mp hp) hne

lemma Sound.setStatus {status : InstallationStatus} (h : Sound s) : Sound (s.setStatus status) :=
  ⟨h.whole, h.cached⟩

/-- The release tier answers with a build. -/
lemma Sound.remember {answer : Text × Origin} (h : Sound s)
    (hbuild : answer.2 = .release → BuildName answer.1) : Sound (s.remember answer) := by
  refine ⟨h.whole, fun p hp => ?_⟩
  obtain rfl : answer = (p, .release) := Option.some.inj hp
  exact hbuild rfl

lemma Sound.newSession (h : Sound s) : Sound s.newSession := ⟨h.whole, by simp [Workdir.newSession]⟩

end Steps

/-! ## What one resolution does

One triple for each function of the resolution; at every moment the directory is sound. -/

section Resolution

variable (a : Answers) {asset versioned : Text}

/-- The file a resolution is about to answer with. -/
def Stores (path : Text) (s : Workdir) : Prop := Sound s ∧ path ∈ s.files

/-- An answer of the release tier is a build that is there. -/
def Launchable (path : Text) (s : Workdir) : Prop := Stores path s ∧ BuildName path

lemma setStatus_triple (status : InstallationStatus) :
    Triple Sound (step (·.setStatus status)) Sound fun _ => Sound :=
  triple_step fun _ h => ⟨h.setStatus, h.setStatus⟩

lemma remove_triple (removed : Bool) (path : Text) :
    Triple Sound (step (·.remove removed path)) Sound fun _ => Sound :=
  triple_step fun _ h => ⟨h.remove, h.remove⟩

lemma downloadFile_triple (url : Text) {temp : Text} (htemp : ¬BuildName temp) :
    Triple Sound (downloadFile a url temp) Sound
      (onResult (fun _ s => Sound s ∧ s.whole temp = true) fun _ => Sound) := by
  have hcreate : Triple Sound (step (·.create temp)) Sound fun _ => Sound :=
    triple_step fun s h => ⟨h.create htemp, h.create htemp⟩
  rw [downloadFile]
  cases a.downloadFile url with
  | error e =>
      refine triple_bind ?_ fun _ => triple_pure fun s (h : Sound s) => h
      cases a.leavesDownload with
      | true => exact hcreate
      | false => exact triple_pure fun s h => h
  | ok u =>
      refine triple_bind hcreate fun _ => ?_
      refine triple_bind (triple_step fun s h => ?_) fun _ => triple_pure fun s h => h
      have hfill : Sound (s.fill temp true) := Sound.fill h htemp
      exact ⟨hfill, hfill, Function.update_self ..⟩

/-- Only what is whole is renamed into place. -/
lemma download_triple (url versioned : Text) :
    Triple Sound (download a url versioned) Sound
      (onResult (fun _ => Stores versioned) fun _ => Sound) := by
  refine triple_bind (downloadFile_triple a url (not_buildName_downloadTempName versioned)) ?_
  rintro (e | u)
  · exact triple_pure fun s h => h
  · cases a.makeFileExecutable (downloadTempName versioned) with
    | error e => exact triple_pure fun s h => h.1
    | ok u =>
        cases a.rename with
        | error e => exact triple_pure fun s h => h.1
        | ok u =>
            refine triple_bind (triple_step fun s h => ?_) fun _ => triple_pure fun s h => h
            have hrename : Sound (s.rename (downloadTempName versioned) versioned) :=
              Sound.rename h.1 h.2
            exact ⟨hrename, hrename, List.mem_append_right _ (List.mem_singleton_self _)⟩

/-- The cleanup spares what was just installed. -/
lemma removeOld_triple :
    Triple (Stores versioned) (removeOld a asset versioned) Sound fun _ => Stores versioned := by
  refine triple_bind triple_read fun s => ?_
  have hloop : Triple (Stores versioned)
      (((cachedBinaries asset s.files).filter (· ≠ versioned)).forM fun old =>
        step (·.remove (a.removeFile old) old)) Sound fun _ => Stores versioned := by
    refine triple_forM (fun _ => Stores versioned) fun done old rest hl => ?_
    refine triple_step fun t ht => ?_
    have hold : old ∈ (cachedBinaries asset s.files).filter (· ≠ versioned) := by
      rw [hl]
      simp
    have hne : versioned ≠ old := by
      rintro rfl
      simpa using List.of_mem_filter hold
    refine ⟨ht.1.remove, ht.1.remove, ?_⟩
    show versioned ∈ removeFile (a.removeFile old) old t.files
    rw [removeFile]
    split_ifs
    · exact List.mem_filter.mpr ⟨ht.2, by simpa using hne⟩
    · exact ht.2
  exact triple_mono hloop (fun t ht => ht.2) (fun t ht => ht) fun _ t ht => ht

/-- The copy may be cut short, but it is not launched. -/
lemma refreshStableCopy_triple :
    Triple (Stores versioned) (refreshStableCopy a versioned) Sound fun _ => Stores versioned := by
  have hcreate : Triple (Stores versioned) (step (·.create stableName)) Sound
      fun _ => Stores versioned := by
    refine triple_step fun s h => ?_
    have hsound : Sound (s.create stableName) := h.1.create not_buildName_stableName
    exact ⟨hsound, hsound, List.mem_append_left _ h.2⟩
  rw [refreshStableCopy]
  cases a.copy with
  | error e =>
      cases a.leavesCopy with
      | true => exact hcreate
      | false => exact triple_pure fun s h => h
  | ok u =>
      refine triple_bind hcreate fun _ => ?_
      refine triple_step fun s h => ?_
      have hfill {whole : Bool} : Sound (s.fill stableName whole) :=
        Sound.fill h.1 not_buildName_stableName
      exact ⟨hfill, hfill, h.2⟩

lemma cachedFallback_triple (hasset : IsAsset asset) :
    Triple Sound (cachedFallback asset) Sound fun found s =>
      Sound s ∧ ∀ path, found = some path → Launchable path s := by
  refine triple_bind triple_read fun s => triple_pure fun t ht => ?_
  obtain ⟨rfl, ht⟩ := ht
  refine ⟨ht, fun path hpath => ?_⟩
  obtain ⟨hmem, hbuild⟩ := buildName_of_accepted hasset (fallbackBinary_mem hpath)
  exact ⟨⟨ht, hmem⟩, hbuild⟩

/-- Either the build is installed, or what there was is as good as before. -/
lemma downloadAsset_triple (hasset : IsAsset asset) (hbuild : BuildName versioned)
    (found : GithubReleaseAsset) :
    Triple Sound (downloadAsset a asset versioned found) Sound
      (onResult Launchable fun _ => Sound) := by
  refine triple_bind (remove_triple _ _) fun _ => ?_
  refine triple_bind (download_triple a found.downloadUrl versioned) ?_
  rintro (e | u)
  · refine triple_bind (remove_triple _ _) fun _ => ?_
    refine triple_bind (setStatus_triple (.failed e)) fun _ => ?_
    refine triple_bind (cachedFallback_triple hasset) ?_
    rintro (_ | path)
    · exact triple_pure fun s h => h.1
    · exact triple_pure fun s h => h.2 path rfl
  · refine triple_bind (removeOld_triple a) fun _ => ?_
    refine triple_bind (refreshStableCopy_triple a) fun _ => ?_
    refine triple_bind (triple_step fun s h => ?_) fun _ => triple_pure fun s h => h
    exact ⟨Sound.setStatus h.1, ⟨Sound.setStatus h.1, h.2⟩, hbuild⟩

/-- **The release tier answers with a build that is there, and whole.** -/
theorem releaseBinary_triple :
    Triple Sound (releaseBinary a) Sound (onResult Launchable fun _ => Sound) := by
  rw [releaseBinary]
  cases hprefix : assetPrefix a.toCalls with
  | error e => exact triple_pure fun s h => h
  | ok asset =>
      have hasset : IsAsset asset := ⟨_, _, hprefix⟩
      refine triple_bind (setStatus_triple _) fun _ => ?_
      cases hlatest : a.latestGithubRelease with
      | error e =>
          refine triple_bind (cachedFallback_triple hasset) ?_
          rintro (_ | path)
          · exact triple_pure fun s h => h.1
          · exact triple_pure fun s h => h.2 path rfl
      | ok release =>
          have hbuild : BuildName (versionedName asset release.version) :=
            ⟨asset, hasset, .inr ⟨release.version, a.tag release hlatest, rfl⟩⟩
          refine triple_bind triple_read fun s => ?_
          split_ifs with hhere
          · have hstored : Triple (fun t => s = t ∧ Sound t) (step (·.setStatus .none)) Sound
                fun _ => Stores (versionedName asset release.version) := by
              refine triple_step fun t ht => ?_
              obtain ⟨rfl, ht⟩ := ht
              exact ⟨ht.setStatus, ht.setStatus, List.contains_iff_mem.mp hhere⟩
            refine triple_bind hstored fun _ => ?_
            cases a.makeFileExecutable (versionedName asset release.version) with
            | error e => exact triple_pure fun t ht => ht.1
            | ok u =>
                refine triple_bind (refreshStableCopy_triple a) fun _ => ?_
                exact triple_pure fun t ht => ⟨ht, hbuild⟩
          · cases release.assets.find? (·.name == asset) with
            | none => exact triple_pure fun t ht => ht.2
            | some found =>
                refine triple_bind ?_ fun _ => downloadAsset_triple a hasset hbuild found
                exact triple_mono (setStatus_triple _) (fun t ht => ht.2) (fun t ht => ht)
                  fun _ t ht => ht

/-- What `server_binary` has answered: a path of the release tier is that of a build. -/
def Answered : Except Text (Text × Origin) → Workdir → Prop :=
  onResult (fun answer s => Sound s ∧ (answer.2 = .release → Launchable answer.1 s)) fun _ => Sound

lemma orOnPath_triple (r : Except Text Text) :
    Triple (onResult Launchable (fun _ => Sound) r) (orOnPath a r) Sound Answered := by
  cases r with
  | ok path =>
      refine triple_bind (triple_step fun s h => ?_) fun _ => triple_pure fun s h => h
      have hremember : Sound (s.remember (path, .release)) := Sound.remember h.1.1 fun _ => h.2
      exact ⟨hremember, hremember, fun _ => ⟨⟨hremember, h.1.2⟩, h.2⟩⟩
  | error e =>
      rw [orOnPath]
      cases a.which with
      | some path =>
          refine triple_bind (triple_step fun s h => ?_) fun _ => triple_pure fun s h => h
          have horigin : Origin.path ≠ .release := by decide
          have hremember : Sound (s.remember (path, .path)) :=
            Sound.remember h fun hrelease => absurd hrelease horigin
          exact ⟨hremember, hremember, fun hrelease => absurd hrelease horigin⟩
      | none =>
          refine triple_bind (triple_step fun s h => ?_) fun _ => triple_pure fun s h => h
          exact ⟨Sound.setStatus h, Sound.setStatus h⟩

/-- **A resolution keeps the directory sound after each of its steps**, and what it answers from the
release tier, or remembers from it, is a build that is there. -/
theorem serverBinary_triple : Triple Sound (serverBinary a) Sound Answered := by
  rw [serverBinary]
  cases a.settingsPath with
  | some path =>
      have horigin : Origin.settings ≠ .release := by decide
      exact triple_pure fun s h => ⟨h, fun hrelease => absurd hrelease horigin⟩
  | none =>
      refine triple_bind triple_read fun s => ?_
      cases hremembered : s.remembered with
      | some answer =>
          obtain ⟨hcached, hmem⟩ := Option.filter_eq_some_iff.mp hremembered
          refine triple_pure fun t ht => ?_
          obtain ⟨rfl, ht⟩ := ht
          refine ⟨ht, fun horigin => ⟨⟨ht, by simpa using hmem⟩, ?_⟩⟩
          exact ht.cached answer.1 (by rw [hcached, ← horigin])
      | none =>
          refine triple_bind ?_ (orOnPath_triple a)
          exact triple_mono (releaseBinary_triple a) (fun t ht => ht.2) (fun t ht => ht)
            fun _ t ht => ht

end Resolution

/-! ## Sessions

The extension may be killed after any step.  The triples hold of every moment of a call, so a killed
call leaves a sound directory to the next session, and the run lemma is short. -/

/-- What happens to the work directory. -/
inductive Event where
  /-- `server_binary` is called, and returns. -/
  | call (a : Answers)
  /-- It is called, and the extension is killed after one of its steps; the next session begins. -/
  | crash (a : Answers) (after : ℕ)
  /-- A session ends between two calls, and the next begins. -/
  | close
  /-- A file that is not in the work directory comes, or goes. -/
  | elsewhere (path : Text) (present : Bool)

/-- Sessions, one after the other.  The builds there at first are whole. -/
def launchMachine : Machine Workdir Event where
  init s := s.cached = none ∧ ∀ path ∈ s.files, BuildName path → s.whole path = true
  step s
    | .call a => some (serverBinary a s).last
    | .crash a after => (serverBinary a s).moments[after]?.map Workdir.newSession
    | .close => some s.newSession
    | .elsewhere path present =>
      if path.head? = some '/' then some (if present then s.create path else s.remove true path)
      else none

/-- Whatever has been answered, the directory is sound. -/
lemma Answered.sound {r : Except Text (Text × Origin)} {s : Workdir} (h : Answered r s) :
    Sound s := by
  cases r with
  | ok answer => exact h.1
  | error e => exact h

lemma Sound.step {s t : Workdir} {l : Event} (h : Sound s)
    (hstep : launchMachine.step s l = some t) : Sound t := by
  cases l with
  | call a =>
      cases hstep
      exact (serverBinary_triple a s h).2.sound
  | crash a after =>
      obtain ⟨u, hu, rfl⟩ := Option.map_eq_some_iff.mp hstep
      exact ((serverBinary_triple a s h).1 u (List.mem_of_getElem? hu)).newSession
  | close =>
      cases hstep
      exact h.newSession
  | elsewhere path present =>
      obtain ⟨hhead, hstep⟩ := Option.ite_none_right_eq_some.mp hstep
      cases hstep
      cases present with
      | true => exact h.create fun hbuild => hbuild.head? hhead
      | false => exact h.remove

lemma sound_of_run {s t : Workdir} {tr : List (Workdir × Event)} (hs : launchMachine.init s)
    (h : launchMachine.Run s tr t) : Sound t :=
  h.preserves Sound (fun _ _ => True) (fun _ _ _ hsound _ => hsound.step)
    ⟨hs.2, by simp [hs.1]⟩ fun _ _ => trivial

/-- What `existing_binaries` accepts is whole. -/
lemma Sound.accepted {s : Workdir} {asset name : Text} (h : Sound s) (hasset : IsAsset asset)
    (hname : name ∈ cachedBinaries asset s.files) : s.whole name = true :=
  h.whole name (buildName_of_accepted hasset hname).1 (buildName_of_accepted hasset hname).2

/-- **Only whole binaries are launched.**  After any sessions, however they ended, all that
`existing_binaries` accepts is whole, at each moment of a call as between calls; and what a call
answers, if it is not from the settings or `PATH`, is a build, there and whole, and not a download
in progress. -/
theorem only_whole_launched {s t : Workdir} {tr : List (Workdir × Event)}
    (hs : launchMachine.init s) (h : launchMachine.Run s tr t) :
    (∀ asset name, IsAsset asset → name ∈ cachedBinaries asset t.files → t.whole name = true) ∧
    ∀ a : Answers,
      (∀ u ∈ (serverBinary a t).moments, ∀ asset name, IsAsset asset →
        name ∈ cachedBinaries asset u.files → u.whole name = true) ∧
      ∀ path, (serverBinary a t).value = .ok (path, .release) →
        BuildName path ∧ path ∈ (serverBinary a t).last.files ∧
          (serverBinary a t).last.whole path = true ∧ ¬downloadSuffix <:+ path := by
  have hsound : Sound t := sound_of_run hs h
  refine ⟨fun _ _ => hsound.accepted, fun a => ?_⟩
  obtain ⟨hmoments, hanswered⟩ := serverBinary_triple a t hsound
  refine ⟨fun u hu _ _ => (hmoments u hu).accepted, fun path hpath => ?_⟩
  rw [hpath] at hanswered
  obtain ⟨⟨hlast, hmem⟩, hbuild⟩ := hanswered.2 rfl
  exact ⟨hbuild, hmem, hlast.whole path hmem hbuild, hbuild.not_downloading⟩

/-- An update on Linux, to a release there is. -/
def updating : Answers where
  settingsPath := none
  currentPlatform := (.linux, .x86_64)
  latestGithubRelease := .ok ⟨"v0.2.0".toList, [⟨"claude-code-connect-linux-x86_64".toList, []⟩]⟩
  downloadFile _ := .ok ()
  leavesDownload := false
  makeFileExecutable _ := .ok ()
  rename := .ok ()
  removeFile _ := true
  removeDownload := true
  copy := .ok ()
  which := none
  leavesCopy := false
  tag := by
    rintro _ ⟨rfl⟩
    decide +kernel

/-- The same without a network. -/
def offline : Answers where
  toCalls := { updating.toCalls with latestGithubRelease := .error "offline".toList }
  leavesCopy := false
  tag := nofun

/-- The work directory of an earlier release. -/
def installed : Workdir where
  files := ["claude-code-connect-linux-x86_64-v0.1.0".toList]
  whole _ := true
  status := none
  cached := none

/-- What a kill in the middle of the download leaves of it. -/
def interrupted : Workdir := (launchMachine.exec installed [.crash updating 3]).getD installed

/-- The download that was cut short is there, and the earlier release is launched. -/
theorem only_whole_launched_interrupted :
    "claude-code-connect-linux-x86_64-v0.2.0.downloading".toList ∈ interrupted.files ∧
      interrupted.whole "claude-code-connect-linux-x86_64-v0.2.0.downloading".toList = false ∧
      (serverBinary offline interrupted).value
        = .ok ("claude-code-connect-linux-x86_64-v0.1.0".toList, .release) ∧
      (serverBinary offline interrupted).last.whole
        "claude-code-connect-linux-x86_64-v0.1.0".toList = true := by
  have hsome : (launchMachine.exec installed [.crash updating 3]).isSome = true := by
    decide +kernel
  obtain ⟨t, ht⟩ := Option.isSome_iff_exists.mp hsome
  have hrun : launchMachine.exec installed [.crash updating 3] = some interrupted := by
    rw [interrupted, ht]
    rfl
  have hvalue : (serverBinary offline interrupted).value
      = .ok ("claude-code-connect-linux-x86_64-v0.1.0".toList, .release) := by
    decide +kernel
  have hlaunched := (only_whole_launched ⟨rfl, fun _ _ _ => rfl⟩ (Machine.run_of_exec _ hrun)).2
  exact ⟨by decide +kernel, by decide +kernel, hvalue, ((hlaunched offline).2 _ hvalue).2.2.1⟩

end Connect.Launch
