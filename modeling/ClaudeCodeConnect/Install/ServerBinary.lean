import ClaudeCodeConnect.Install.Resolve

/-!
# Which binary the extension runs

`ClaudeCodeExtension::server_binary` and the functions under it. What the calls to Zed, to GitHub
and to the file system answer is a `Calls`; the files of the work directory, the status last shown
and the path remembered are threaded through as an `ExtensionState`.

* `serverBinary` -- settings, then the path remembered, then `releaseBinary`, then `which`.
* `cachedBinaries_download_error` -- a download that failed, wherever it did, has left the
  candidates in the work directory as they were: the temporary name is none of them.
* `releaseBinary_isOk_iff` -- with a candidate on disk, the release tier answers exactly when none
  of its two early returns is taken: the release's build is here and cannot be made executable, or
  it is not here and the release has no asset for the platform.
* `serverBinary_isOk_iff` -- so does the resolution, when nothing else can answer.
-/

namespace Connect

/-- `GithubReleaseAsset`. -/
structure GithubReleaseAsset where
  name : Text
  downloadUrl : Text
  deriving DecidableEq, Repr

/-- `GithubRelease`. -/
structure GithubRelease where
  version : Text
  assets : List GithubReleaseAsset
  deriving DecidableEq, Repr

/-- `LanguageServerInstallationStatus`. -/
inductive InstallationStatus where
  | none
  | downloading
  | checkingForUpdate
  | failed (message : Text)
  deriving DecidableEq, Repr

/-- `SERVER_ID`. -/
def serverId : Text := "claude-code-connect".toList

/-- `GITHUB_REPO`. -/
def githubRepo : Text := "josephsintum/zed-claude-code-connect".toList

/-- `STABLE_NAME`. -/
def stableName : Text := "claude-code-connect".toList

/-- What the calls of one resolution answer. None but `remove_file` is made twice on one path. -/
structure Calls where
  /-- `binary.path` in the settings of the worktree. -/
  settingsPath : Option Text
  currentPlatform : Os × Arch
  latestGithubRelease : Except Text GithubRelease
  /-- `download_file`, from a URL. -/
  downloadFile : Text → Except Text Unit
  /-- Whether a download that failed had created its file. -/
  leavesDownload : Bool
  makeFileExecutable : Text → Except Text Unit
  rename : Except Text Unit
  /-- Whether `remove_file` succeeds: on what an earlier download left, and on old builds. -/
  removeFile : Text → Bool
  /-- The same for what a failed download left. -/
  removeDownload : Bool
  copy : Except Text Unit
  which : Option Text

/-- The extension and what it works on: the paths of the files in its work directory, the status
    last set, and the binary resolved earlier in the session. -/
structure ExtensionState where
  files : List Text
  status : Option InstallationStatus
  cachedBinaryPath : Option Text
  deriving DecidableEq, Repr

/-- `fs::read_dir(".")`: the files that are in the directory itself, which can be read. -/
def readDir (files : List Text) : List Text := files.filter fun path => '/' ∉ path

/-- `fs::remove_file`, with its result ignored. -/
def removeFile (removed : Bool) (path : Text) (files : List Text) : List Text :=
  if removed then files.filter (· ≠ path) else files

/-- A file is there after it was written, whether or not it was before. -/
def writeFile (path : Text) (files : List Text) : List Text := files ++ [path]

/-- `existing_binaries` of the extension: the names in the work directory that are builds. -/
def cachedBinaries (asset : Text) (files : List Text) : List Text :=
  existingBinaries asset (readDir files)

/-- `fallback_binary` of the extension. A file that cannot be made executable is logged only. -/
def cachedFallback (asset : Text) (files : List Text) : Option Text :=
  fallbackBinary asset (cachedBinaries asset files)

/-- `refresh_stable_copy`: best effort. -/
def refreshStableCopy (calls : Calls) (files : List Text) : List Text :=
  match calls.copy with
  | .ok () => writeFile stableName files
  | .error _ => files

/-- `asset_prefix`. -/
def assetPrefix (calls : Calls) : Except Text Text :=
  assetName calls.currentPlatform.1 calls.currentPlatform.2

/-- Download to the temporary name, make that executable, rename it into place. Gives the files
    after it with the first error. -/
def download (calls : Calls) (url versioned : Text) (files : List Text) :
    Except Text Unit × List Text :=
  let temp := downloadTempName versioned
  match calls.downloadFile url with
  | .error e => (.error e, if calls.leavesDownload then writeFile temp files else files)
  | .ok () =>
    let files := writeFile temp files
    match calls.makeFileExecutable temp with
    | .error e => (.error e, files)
    | .ok () =>
      match calls.rename with
      | .error e => (.error e, files)
      | .ok () => (.ok (), writeFile versioned (files.filter (· ≠ temp)))

/-- Delete every build but the one just installed. -/
def removeOld (calls : Calls) (asset versioned : Text) (files : List Text) : List Text :=
  ((cachedBinaries asset files).filter (· ≠ versioned)).foldl
    (fun files old => removeFile (calls.removeFile old) old files) files

/-- The part of `release_binary` after the asset has been found. -/
def downloadAsset (calls : Calls) (asset versioned : Text) (found : GithubReleaseAsset)
    (s : ExtensionState) : Except Text Text × ExtensionState :=
  let temp := downloadTempName versioned
  match download calls found.downloadUrl versioned
      (removeFile (calls.removeFile temp) temp s.files) with
  | (.ok (), files) =>
    (.ok versioned, { s with
      files := refreshStableCopy calls (removeOld calls asset versioned files)
      status := some .none })
  | (.error e, files) =>
    let files := removeFile calls.removeDownload temp files
    let s := { s with files := files, status := some (.failed e) }
    match cachedFallback asset files with
    | some path => (.ok path, s)
    | none => (.error ("download of ".toList ++ found.name ++ " failed (".toList ++ e ++
        ") and no cached binary exists".toList), s)

/-- `release_binary`. -/
def releaseBinary (calls : Calls) (s : ExtensionState) : Except Text Text × ExtensionState :=
  match assetPrefix calls with
  | .error e => (.error e, s)
  | .ok asset =>
    let s := { s with status := some .checkingForUpdate }
    match calls.latestGithubRelease with
    | .error e =>
      match cachedFallback asset s.files with
      | some path => (.ok path, s)
      | none => (.error ("could not fetch the latest release from ".toList ++ githubRepo ++
          " (".toList ++ e ++ ") and no cached binary exists".toList), s)
    | .ok release =>
      let versioned := versionedName asset release.version
      if versioned ∈ s.files then
        let s := { s with status := some .none }
        match calls.makeFileExecutable versioned with
        -- the first `?`
        | .error e => (.error e, s)
        | .ok () => (.ok versioned, { s with files := refreshStableCopy calls s.files })
      else
        match release.assets.find? (·.name == asset) with
        -- the second `?`
        | none => (.error ("release ".toList ++ release.version ++
            " has no asset named ".toList ++ asset), s)
        | some found =>
          downloadAsset calls asset versioned found { s with status := some .downloading }

/-- `ClaudeCodeExtension::server_binary`. -/
def serverBinary (calls : Calls) (s : ExtensionState) : Except Text Text × ExtensionState :=
  match calls.settingsPath with
  | some path => (.ok path, s)
  | none =>
    match s.cachedBinaryPath.filter (· ∈ s.files) with
    | some path => (.ok path, s)
    | none =>
      match releaseBinary calls s with
      | (.ok path, s) => (.ok path, { s with cachedBinaryPath := some path })
      | (.error e, s) =>
        match calls.which with
        | some path => (.ok path, { s with cachedBinaryPath := some path })
        | none =>
          let message := e ++ ", and ".toList ++ serverId ++ " is not on PATH".toList
          (.error message, { s with status := some (.failed message) })

/-! ## Candidates on disk

What writing and removing files does to the candidates. -/

section Candidates

variable {asset path : Text} {files : List Text}

lemma mem_cachedBinaries : path ∈ cachedBinaries asset files ↔
    path ∈ files ∧ '/' ∉ path ∧ (path = asset ∨ isVersionedBinary asset path = true) := by
  simp [cachedBinaries, readDir, and_assoc]

/-- `existing_binaries` is applied twice on the way to the fallback, the second time for nothing. -/
lemma existingBinaries_idem (names : List Text) :
    existingBinaries asset (existingBinaries asset names) = existingBinaries asset names := by
  simp [existingBinaries]

/-- **There is something to fall back on exactly when a build is on disk.** -/
theorem cachedFallback_isSome_iff :
    (cachedFallback asset files).isSome = true ↔ cachedBinaries asset files ≠ [] := by
  rw [cachedFallback, fallbackBinary_isSome_iff, cachedBinaries, existingBinaries_idem]

/-- What is neither the legacy name nor a versioned build comes and goes unnoticed. -/
lemma cachedBinaries_writeFile (h : path ≠ asset ∧ isVersionedBinary asset path = false) :
    cachedBinaries asset (writeFile path files) = cachedBinaries asset files := by
  have hnil : existingBinaries asset (readDir [path]) = [] := by
    rw [List.eq_nil_iff_forall_not_mem]
    intro name hname
    have hname : name ∈ cachedBinaries asset [path] := hname
    obtain ⟨hmem, -, heq | hv⟩ := mem_cachedBinaries.mp hname
    · exact h.1 (List.mem_singleton.mp hmem ▸ heq)
    · rw [List.mem_singleton.mp hmem, h.2] at hv
      exact absurd hv (by decide)
  have happend : cachedBinaries asset (writeFile path files)
      = cachedBinaries asset files ++ existingBinaries asset (readDir [path]) := by
    simp [cachedBinaries, existingBinaries, readDir, writeFile]
  rw [happend, hnil, List.append_nil]

lemma cachedBinaries_filter_ne (h : path ≠ asset ∧ isVersionedBinary asset path = false) :
    cachedBinaries asset (files.filter (· ≠ path)) = cachedBinaries asset files := by
  rw [cachedBinaries, cachedBinaries, existingBinaries, existingBinaries, readDir, readDir,
    List.filter_filter, List.filter_filter, List.filter_filter]
  refine List.filter_congr fun name _ => ?_
  by_cases hname : name = path
  · subst hname
    simp [h.1, h.2]
  · simp [hname]

lemma cachedBinaries_removeFile (removed : Bool)
    (h : path ≠ asset ∧ isVersionedBinary asset path = false) :
    cachedBinaries asset (removeFile removed path files) = cachedBinaries asset files := by
  rw [removeFile]
  split_ifs
  · exact cachedBinaries_filter_ne h
  · rfl

end Candidates

/-! ## The release tier

A download that fails leaves the candidates alone, so there is something to fall back on; the two
early returns are the ways to answer with an error all the same. -/

section Release

variable {calls : Calls} {asset versioned : Text} {s : ExtensionState}

/-- A platform's asset name is not the name of a download in progress. -/
lemma downloadTempName_ne_asset (h : assetPrefix calls = .ok asset) (path : Text) :
    downloadTempName path ≠ asset := by
  have hlast : (downloadTempName path).getLast? = some 'g' := by
    have hg : downloadSuffix.getLast? = some 'g' := by decide
    rw [downloadTempName, List.getLast?_append, hg, Option.some_or]
  rintro rfl
  have hassets : ∀ os arch name, assetName os arch = .ok name → name.getLast? ≠ some 'g' := by
    intro os arch name hname
    cases os <;> cases arch <;> simp only [assetName, Except.ok.injEq, reduceCtorEq] at hname <;>
      rw [← hname] <;> decide
  exact hassets _ _ _ h hlast

/-- A download in progress is no candidate. -/
lemma downloadTempName_not_candidate (h : assetPrefix calls = .ok asset) (path : Text) :
    downloadTempName path ≠ asset ∧ isVersionedBinary asset (downloadTempName path) = false :=
  ⟨downloadTempName_ne_asset h path, not_isVersionedBinary_downloadTempName asset path⟩

/-- **A download that failed has left the candidates as they were.** -/
theorem cachedBinaries_download_error {url e : Text} {files files' : List Text}
    (hasset : assetPrefix calls = .ok asset)
    (h : download calls url versioned files = (.error e, files')) :
    cachedBinaries asset files' = cachedBinaries asset files := by
  have htemp := downloadTempName_not_candidate hasset versioned
  simp only [download] at h
  split at h
  · split_ifs at h
    · rw [← (Prod.mk.inj h).2, cachedBinaries_writeFile htemp]
    · rw [← (Prod.mk.inj h).2]
  · split at h
    · rw [← (Prod.mk.inj h).2, cachedBinaries_writeFile htemp]
    · split at h
      · rw [← (Prod.mk.inj h).2, cachedBinaries_writeFile htemp]
      · exact absurd (Prod.mk.inj h).1 (by simp)

/-- Once the asset is found, a candidate on disk is enough, downloaded or not. -/
theorem downloadAsset_isOk {found : GithubReleaseAsset} (hasset : assetPrefix calls = .ok asset)
    (hcached : cachedBinaries asset s.files ≠ []) :
    (downloadAsset calls asset versioned found s).1.isOk = true := by
  have htemp := downloadTempName_not_candidate hasset versioned
  rw [downloadAsset]
  split
  · rfl
  · rename_i e files hdownload
    have hsame : cachedBinaries asset
        (removeFile calls.removeDownload (downloadTempName versioned) files)
          = cachedBinaries asset s.files := by
      rw [cachedBinaries_removeFile _ htemp, cachedBinaries_download_error hasset hdownload,
        cachedBinaries_removeFile _ htemp]
    have hsome := cachedFallback_isSome_iff.mpr (hsame ▸ hcached)
    obtain ⟨path, hpath⟩ := Option.isSome_iff_exists.mp hsome
    simp only [hpath]
    rfl

/-- Neither early return of `release_binary` is taken: the query failed, or the release's build is
    here and can be made executable, or it is not here and the release has the asset. -/
def Calls.ReleaseUsable (calls : Calls) (asset : Text) (files : List Text) : Prop :=
  match calls.latestGithubRelease with
  | .error _ => True
  | .ok release =>
    if versionedName asset release.version ∈ files then
      calls.makeFileExecutable (versionedName asset release.version) = .ok ()
    else ∃ found ∈ release.assets, found.name = asset

/-- **With a candidate on disk, the release tier answers exactly when no early return is taken.** -/
theorem releaseBinary_isOk_iff (hasset : assetPrefix calls = .ok asset)
    (hcached : cachedBinaries asset s.files ≠ []) :
    (releaseBinary calls s).1.isOk = true ↔ calls.ReleaseUsable asset s.files := by
  rw [releaseBinary, hasset, Calls.ReleaseUsable]
  cases hrelease : calls.latestGithubRelease with
  | error e =>
      obtain ⟨path, hpath⟩ := Option.isSome_iff_exists.mp (cachedFallback_isSome_iff.mpr hcached)
      simp only [hpath]
      exact ⟨fun _ => trivial, fun _ => rfl⟩
  | ok release =>
      dsimp only
      split_ifs with hhere
      · cases hexec : calls.makeFileExecutable (versionedName asset release.version) with
        | error e => simp [Except.isOk, Except.toBool]
        | ok u => exact ⟨fun _ => rfl, fun _ => rfl⟩
      · cases hfind : release.assets.find? (·.name == asset) with
        | none =>
            have hnone : ¬ ∃ found ∈ release.assets, found.name = asset := by
              rintro ⟨found, hmem, hname⟩
              exact absurd hname (by simpa using List.find?_eq_none.mp hfind found hmem)
            exact ⟨fun h => absurd h (by simp [Except.isOk, Except.toBool]),
              fun h => absurd h hnone⟩
        | some found =>
            have hname : (found.name == asset) = true :=
              List.find?_some (p := fun a : GithubReleaseAsset => a.name == asset) hfind
            have hfound : ∃ found ∈ release.assets, found.name = asset :=
              ⟨found, List.mem_of_find?_eq_some hfind, eq_of_beq hname⟩
            exact ⟨fun _ => hfound, fun _ => downloadAsset_isOk hasset hcached⟩

end Release

/-! ## The resolution

Nothing else can answer: the release tier decides. -/

/-- **With a build on disk and nothing else to answer, a path is found exactly when no early return
    is taken.** -/
theorem serverBinary_isOk_iff {calls : Calls} {asset : Text} {s : ExtensionState}
    (hasset : assetPrefix calls = .ok asset) (hsettings : calls.settingsPath = none)
    (hremembered : s.cachedBinaryPath = none) (hwhich : calls.which = none)
    (hcached : cachedBinaries asset s.files ≠ []) :
    (serverBinary calls s).1.isOk = true ↔ calls.ReleaseUsable asset s.files := by
  rw [← releaseBinary_isOk_iff hasset hcached, serverBinary, hsettings, hremembered]
  simp only [Option.filter_none]
  rcases hrelease : releaseBinary calls s with ⟨e | path, s'⟩
  · simp [hwhich, Except.isOk, Except.toBool]
  · simp [Except.isOk, Except.toBool]

/-- An offline start, with last month's build and an interrupted download in the directory. -/
theorem serverBinary_isOk_offline :
    let asset := "claude-code-connect-linux-x86_64".toList
    let calls : Calls := {
      settingsPath := none
      currentPlatform := (.linux, .x86_64)
      latestGithubRelease := .error "dns error".toList
      downloadFile := fun _ => .error "dns error".toList
      leavesDownload := false
      makeFileExecutable := fun _ => .ok ()
      rename := .ok ()
      removeFile := fun _ => true
      removeDownload := true
      copy := .ok ()
      which := none }
    let s : ExtensionState := {
      files := [versionedName asset "v0.3.0".toList,
        downloadTempName (versionedName asset "v0.4.0".toList)]
      status := none
      cachedBinaryPath := none }
    (serverBinary calls s).1.isOk = true := by
  intro asset calls s
  exact (serverBinary_isOk_iff rfl rfl rfl rfl
    (by decide +kernel)).mpr trivial

/-- **A release without the asset for this platform hides the build on disk.** -/
theorem not_forall_serverBinary_isOk : ¬ ∀ (calls : Calls) (asset : Text) (s : ExtensionState),
    assetPrefix calls = .ok asset → calls.settingsPath = none → s.cachedBinaryPath = none →
    calls.which = none → cachedBinaries asset s.files ≠ [] →
    (serverBinary calls s).1.isOk = true := by
  intro h
  let asset := "claude-code-connect-linux-x86_64".toList
  let calls : Calls := {
    settingsPath := none
    currentPlatform := (.linux, .x86_64)
    latestGithubRelease := .ok {
      version := "v0.4.0".toList
      assets := [⟨"claude-code-connect-macos-aarch64".toList, []⟩] }
    downloadFile := fun _ => .ok ()
    leavesDownload := false
    makeFileExecutable := fun _ => .ok ()
    rename := .ok ()
    removeFile := fun _ => true
    removeDownload := true
    copy := .ok ()
    which := none }
  let s : ExtensionState := {
    files := [versionedName asset "v0.3.0".toList], status := none, cachedBinaryPath := none }
  have hok := h calls asset s rfl rfl rfl rfl (by decide +kernel)
  have herr : (serverBinary calls s).1.isOk = false := by decide +kernel
  exact absurd (herr.symm.trans hok) (by decide)

end Connect
