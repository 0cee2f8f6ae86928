import ClaudeCodeConnect.Core.DecimalOrder
import Mathlib.Data.List.Sort
import Mathlib.Data.Prod.Lex
import Mathlib.Order.Bounds.Basic
import Mathlib.Order.Preorder.Finite
import Mathlib.Data.Set.Finite.Lattice

/-!
# Naming, finding and falling back on a companion binary

The functions of the `resolve` crate, which is plain string logic over the names of the extension
work directory.

* `existingBinaries`, `fallbackBinary` -- the candidates among the names, and the one of them that
  is run when a download is impossible.
* `fallbackBinary_eq_some_of_versioned` -- that one is the versioned build whose **name** is last in
  text order; `fallbackBinary_isSome_iff` says when there is one.
* `Version` -- `v{major}.{minor}.{patch}` with the numeric order on it, and `Version.text_lt_iff`:
  two names compare as the texts of the first number they differ in.
* `PicksNewest`, `picksNewest_iff` -- the fallback is the newest build exactly when the newest
  build's number reads, at the first place where it differs from another's, as the larger one
  also as text. `v0.9.0` and `v0.10.0` do not.
-/

namespace Connect

/-- Operating systems the release workflow builds for. -/
inductive Os where
  | mac
  | linux
  | windows
  deriving DecidableEq, Repr

/-- CPU architectures the release workflow builds for. -/
inductive Arch where
  | aarch64
  | x86_64
  | x86
  deriving DecidableEq, Repr

/-- What `{:?}` writes of an `Os`. -/
def Os.debug : Os → Text
  | .mac => "Mac".toList
  | .linux => "Linux".toList
  | .windows => "Windows".toList

/-- What `{:?}` writes of an `Arch`. -/
def Arch.debug : Arch → Text
  | .aarch64 => "Aarch64".toList
  | .x86_64 => "X86_64".toList
  | .x86 => "X86".toList

/-- Release asset name for a platform, without a version suffix. -/
def assetName : Os → Arch → Except Text Text
  | .mac, .aarch64 => .ok "claude-code-connect-macos-aarch64".toList
  | .mac, .x86_64 => .ok "claude-code-connect-macos-x86_64".toList
  | .linux, .x86_64 => .ok "claude-code-connect-linux-x86_64".toList
  | .linux, .aarch64 => .ok "claude-code-connect-linux-aarch64".toList
  | .windows, _ => .error "Windows is not currently supported".toList
  | os, arch => .error ("Unsupported platform: ".toList ++ os.debug ++ '-' :: arch.debug)

/-- `DOWNLOAD_SUFFIX`: suffix of a download in progress. -/
def downloadSuffix : Text := ".downloading".toList

/-- Name a downloaded release is stored under: the asset name plus its version. -/
def versionedName (asset version : Text) : Text := asset ++ '-' :: version

/-- Where a download is written before it is renamed into place. -/
def downloadTempName (versioned : Text) : Text := versioned ++ downloadSuffix

/-- Whether `name` is a versioned build of `asset` that is safe to run. -/
def isVersionedBinary (asset name : Text) : Bool :=
  match Text.stripPrefix asset name with
  | some suffix => ['-', 'v'].isPrefixOf suffix && !downloadSuffix.isSuffixOf suffix
  | none => false

/-- The legacy unversioned name if present, and every versioned build. -/
def existingBinaries (asset : Text) (names : List Text) : List Text :=
  names.filter fun name => name == asset || isVersionedBinary asset name

/-- The build to fall back on: the last versioned one once the candidates are sorted, otherwise the
    legacy unversioned binary. -/
def fallbackBinary (asset : Text) (names : List Text) : Option Text :=
  let candidates := (existingBinaries asset names).insertionSort (· ≤ ·)
  (candidates.reverse.find? (isVersionedBinary asset)).or (candidates.find? (· == asset))

/-! ## What the fallback is

The candidates are sorted as strings, so the last versioned one has the greatest name, whatever the
version it is of. -/

@[simp] lemma mem_existingBinaries {asset name : Text} {names : List Text} :
    name ∈ existingBinaries asset names
      ↔ name ∈ names ∧ (name = asset ∨ isVersionedBinary asset name = true) := by
  simp [existingBinaries]

lemma isVersionedBinary_iff {asset name : Text} : isVersionedBinary asset name = true ↔
    ∃ suffix, name = asset ++ '-' :: 'v' :: suffix ∧
      ¬ downloadSuffix <:+ '-' :: 'v' :: suffix := by
  constructor
  · intro h
    rw [isVersionedBinary] at h
    cases hs : Text.stripPrefix asset name with
    | none => simp [hs] at h
    | some suffix =>
        rw [hs] at h
        simp only [Bool.and_eq_true, Bool.not_eq_true', List.isPrefixOf_iff_prefix] at h
        obtain ⟨⟨rest, rfl⟩, hend⟩ := h
        refine ⟨rest, Text.stripPrefix_eq_some_iff.mp hs, fun hsuffix => ?_⟩
        have hend' := List.isSuffixOf_iff_suffix.mpr hsuffix
        exact absurd (hend'.symm.trans hend) (by decide)
  · rintro ⟨rest, rfl, hend⟩
    rw [isVersionedBinary, Text.stripPrefix_append]
    simpa [← List.isSuffixOf_iff_suffix] using hend

/-- An unversioned name is not a versioned one. -/
lemma not_isVersionedBinary_self (asset : Text) : isVersionedBinary asset asset = false := by
  have h := Text.stripPrefix_append asset []
  rw [List.append_nil] at h
  rw [isVersionedBinary, h]
  rfl

/-- A download in progress is no candidate. -/
lemma not_isVersionedBinary_downloadTempName (asset path : Text) :
    isVersionedBinary asset (downloadTempName path) = false := by
  by_contra h
  obtain ⟨rest, heq, hend⟩ := isVersionedBinary_iff.mp (Bool.not_eq_false _ ▸ h)
  refine hend ?_
  -- both are suffixes of the name, so the shorter one is a suffix of the longer
  have h1 : downloadSuffix <:+ downloadTempName path := List.suffix_append _ _
  have h2 : '-' :: 'v' :: rest <:+ downloadTempName path := heq ▸ List.suffix_append _ _
  rcases List.suffix_or_suffix_of_suffix h1 h2 with h | h
  · exact h
  · exfalso
    obtain ⟨before, hb⟩ := h
    have hmem : '-' ∈ downloadSuffix := by rw [← hb]; simp
    exact absurd hmem (by decide)

/-- In a sorted list the last element with a property is the greatest with it. -/
lemma find?_reverse_insertionSort {p : Text → Bool} {l : List Text} (h : ∃ x ∈ l, p x = true) :
    ∃ y ∈ l, p y = true ∧ (l.insertionSort (· ≤ ·)).reverse.find? p = some y ∧
      ∀ x ∈ l, p x = true → x ≤ y := by
  obtain ⟨x₀, hx₀, hp₀⟩ := h
  have hsome : ((l.insertionSort (· ≤ ·)).reverse.find? p).isSome = true := by
    rw [List.find?_isSome]
    exact ⟨x₀, by simpa using hx₀, hp₀⟩
  obtain ⟨y, hy⟩ := Option.isSome_iff_exists.mp hsome
  have hmem : y ∈ l := by simpa using List.mem_of_find?_eq_some hy
  refine ⟨y, hmem, List.find?_some hy, hy, fun x hx hpx => ?_⟩
  obtain ⟨-, as, bs, hsplit, hbefore⟩ := List.find?_eq_some_iff_append.mp hy
  have hsorted : (as ++ y :: bs).Pairwise (· ≥ ·) := by
    rw [← hsplit, List.pairwise_reverse]
    exact List.pairwise_insertionSort (· ≤ ·) l
  have hx' : x ∈ as ++ y :: bs := by rw [← hsplit]; simpa using hx
  rcases List.mem_append.mp hx' with hx' | hx'
  · exact absurd hpx (by simpa using hbefore x hx')
  · rcases List.mem_cons.mp hx' with rfl | hx'
    · exact le_rfl
    · exact (List.pairwise_cons.mp (List.pairwise_append.mp hsorted).2.1).1 x hx'

/-- **With a versioned build present, the fallback is the one whose name is greatest.** -/
theorem fallbackBinary_eq_some_of_versioned {asset : Text} {names : List Text}
    (h : ∃ name ∈ names, isVersionedBinary asset name = true) :
    ∃ name ∈ names, isVersionedBinary asset name = true ∧
      fallbackBinary asset names = some name ∧
      ∀ other ∈ names, isVersionedBinary asset other = true → other ≤ name := by
  obtain ⟨name₀, hmem₀, hv₀⟩ := h
  obtain ⟨name, hmem, hv, hfind, hmax⟩ := find?_reverse_insertionSort
    (p := isVersionedBinary asset) (l := existingBinaries asset names)
    ⟨name₀, mem_existingBinaries.mpr ⟨hmem₀, Or.inr hv₀⟩, hv₀⟩
  refine ⟨name, (mem_existingBinaries.mp hmem).1, hv, ?_, fun other hother hv' => ?_⟩
  · rw [fallbackBinary, hfind, Option.some_or]
  · exact hmax other (mem_existingBinaries.mpr ⟨hother, Or.inr hv'⟩) hv'

/-- With no versioned build, it is the legacy name or nothing. -/
theorem fallbackBinary_of_not_versioned {asset : Text} {names : List Text}
    (h : ∀ name ∈ names, isVersionedBinary asset name = false) :
    fallbackBinary asset names = if asset ∈ names then some asset else none := by
  have hcand : ∀ name ∈ (existingBinaries asset names).insertionSort (· ≤ ·),
      name = asset ∧ asset ∈ names := by
    intro name hname
    rw [List.mem_insertionSort, mem_existingBinaries] at hname
    rcases hname with ⟨hmem, rfl | hv⟩
    · exact ⟨rfl, hmem⟩
    · rw [h name hmem] at hv
      exact absurd hv (by decide)
  have hnone : ((existingBinaries asset names).insertionSort (· ≤ ·)).reverse.find?
      (isVersionedBinary asset) = none := by
    rw [List.find?_eq_none]
    intro name hname
    rw [(hcand name (List.mem_reverse.mp hname)).1, not_isVersionedBinary_self]
    decide
  rw [fallbackBinary, hnone, Option.none_or]
  split_ifs with hmem
  · have hsome : (((existingBinaries asset names).insertionSort (· ≤ ·)).find?
        (· == asset)).isSome = true := by
      rw [List.find?_isSome]
      exact ⟨asset, by simpa using hmem, by simp⟩
    obtain ⟨name, hname⟩ := Option.isSome_iff_exists.mp hsome
    have heq : (name == asset) = true := List.find?_some (p := (· == asset)) hname
    rw [hname, eq_of_beq heq]
  · rw [List.find?_eq_none]
    exact fun name hname => absurd (hcand name hname).2 hmem

/-- **There is a fallback exactly when there is a candidate.** -/
theorem fallbackBinary_isSome_iff {asset : Text} {names : List Text} :
    (fallbackBinary asset names).isSome = true ↔ existingBinaries asset names ≠ [] := by
  by_cases h : ∃ name ∈ names, isVersionedBinary asset name = true
  · obtain ⟨name, hmem, hv, hsome, -⟩ := fallbackBinary_eq_some_of_versioned h
    have hne : existingBinaries asset names ≠ [] :=
      List.ne_nil_of_mem (mem_existingBinaries.mpr ⟨hmem, Or.inr hv⟩)
    exact ⟨fun _ => hne, fun _ => by rw [hsome]; rfl⟩
  · push Not at h
    have h : ∀ name ∈ names, isVersionedBinary asset name = false := fun name hname =>
      Bool.not_eq_true _ ▸ h name hname
    rw [fallbackBinary_of_not_versioned h]
    by_cases hmem : asset ∈ names
    · have hne : existingBinaries asset names ≠ [] :=
        List.ne_nil_of_mem (mem_existingBinaries.mpr ⟨hmem, Or.inl rfl⟩)
      simp [hmem, hne]
    · have hnil : existingBinaries asset names = [] := by
        rw [List.eq_nil_iff_forall_not_mem]
        intro name hname
        obtain ⟨hname, heq | hv⟩ := mem_existingBinaries.mp hname
        · exact hmem (heq ▸ hname)
        · rw [h name hname] at hv
          exact absurd hv (by decide)
      simp [hmem, hnil]

/-! ## Versions

The numbers of a version have an order and their text has another; this says where the two agree. -/

/-- A release version. -/
structure Version where
  major : ℕ
  minor : ℕ
  patch : ℕ
  deriving DecidableEq, Repr

namespace Version

/-- `v{major}.{minor}.{patch}`. -/
def text (v : Version) : Text :=
  'v' :: Text.toDigits v.major ++ '.' :: Text.toDigits v.minor ++ '.' :: Text.toDigits v.patch

/-- The numbers of a version, ordered lexicographically. -/
def key (v : Version) : ℕ ×ₗ ℕ ×ₗ ℕ := toLex (v.major, toLex (v.minor, v.patch))

lemma key_injective : Function.Injective key := by
  rintro ⟨a, b, c⟩ ⟨a', b', c'⟩ h
  simpa [key] using h

/-- The numeric order. -/
instance : LinearOrder Version := LinearOrder.lift' key key_injective

lemma lt_iff {v w : Version} : v < w ↔ v.major < w.major ∨ v.major = w.major ∧
    (v.minor < w.minor ∨ v.minor = w.minor ∧ v.patch < w.patch) := by
  show v.key < w.key ↔ _
  simp [key, Prod.Lex.toLex_lt_toLex]

/-- Of two numbers, the first is also the first as text: it is smaller still when it is filled up
    with zeros to the length of the other. -/
def ReadsBelow (m n : ℕ) : Prop :=
  m * 10 ^ (Text.numDigits n - Text.numDigits m) ≤ n

/-- The numbers of `v` and `w` at the first place where they differ read in their numeric order. -/
def ReadsBefore (v w : Version) : Prop :=
  if v.major ≠ w.major then ReadsBelow v.major w.major
  else if v.minor ≠ w.minor then ReadsBelow v.minor w.minor
  else ReadsBelow v.patch w.patch

/-- **The order of two version texts.** -/
theorem text_lt_iff {v w : Version} (h : v < w) : v.text < w.text ↔ v.ReadsBefore w := by
  have hdigits : ∀ n : ℕ, ∀ c ∈ Text.toDigits n, c.isDigit = true := fun _ _ =>
    Text.isDigit_of_mem_toDigits
  have hne : ∀ {m n : ℕ}, m < n → Text.toDigits m ≠ Text.toDigits n := fun hlt heq =>
    hlt.ne (Text.toDigits_injective heq)
  rw [text, text, List.cons_append, List.cons_append, List.cons_append, List.cons_append,
    List.append_assoc, List.append_assoc, List.cons_lt_cons_iff]
  simp only [lt_irrefl, true_and, false_or, List.cons_append]
  rcases lt_iff.mp h with hmajor | ⟨hmajor, hminor | ⟨hminor, hpatch⟩⟩
  · rw [Text.append_dot_lt_iff (hne hmajor) (hdigits _) (hdigits _),
      Text.toDigits_lt_iff hmajor, ReadsBefore, if_pos hmajor.ne, ReadsBelow]
  · rw [hmajor, Text.append_lt_append_iff, List.cons_lt_cons_iff,
      Text.append_dot_lt_iff (hne hminor) (hdigits _) (hdigits _),
      Text.toDigits_lt_iff hminor, ReadsBefore, if_neg (not_not.mpr hmajor), if_pos hminor.ne,
      ReadsBelow]
    simp
  · rw [hmajor, hminor, Text.append_lt_append_iff, List.cons_lt_cons_iff,
      Text.append_lt_append_iff, List.cons_lt_cons_iff, Text.toDigits_lt_iff hpatch, ReadsBefore,
      if_neg (not_not.mpr hmajor), if_neg (not_not.mpr hminor), ReadsBelow]
    simp

lemma text_injective : Function.Injective text := by
  have hsplit : ∀ (n : ℕ) (rest : Text),
      Text.splitOnce '.' (Text.toDigits n ++ '.' :: rest) = some (Text.toDigits n, rest) := by
    refine fun n rest => Text.splitOnce_append (fun hmem => ?_) rest
    exact absurd (Text.isDigit_of_mem_toDigits hmem) (by decide)
  rintro ⟨a, b, c⟩ ⟨a', b', c'⟩ h
  simp only [text, List.cons_append, List.append_assoc, List.cons.injEq, true_and] at h
  have hmajor := congrArg (Text.splitOnce '.') h
  rw [hsplit, hsplit, Option.some.injEq, Prod.mk.injEq] at hmajor
  have hminor := congrArg (Text.splitOnce '.') hmajor.2
  rw [hsplit, hsplit, Option.some.injEq, Prod.mk.injEq] at hminor
  rw [Text.toDigits_injective hmajor.1, Text.toDigits_injective hminor.1,
    Text.toDigits_injective hminor.2]

end Version

/-! ## The newest build

The fallback is meant to be the newest build.  It is, exactly if the order of the names agrees with
that of the versions where it matters. -/

/-- The versions among the names. -/
def builds (asset : Text) (names : List Text) : Set Version :=
  {v | versionedName asset v.text ∈ names}

/-- What a fallback is for: the newest build if there is any, else the legacy name if it is there,
    and nothing exactly when neither is. -/
def PicksNewest (asset : Text) (names : List Text) (picked : Option Text) : Prop :=
  ((builds asset names).Nonempty → ∃ v, IsGreatest (builds asset names) v ∧
    picked = some (versionedName asset v.text)) ∧
  (builds asset names = ∅ → asset ∈ names → picked = some asset) ∧
  (picked = none ↔ builds asset names = ∅ ∧ asset ∉ names)

/-- Every versioned build is named after a version. -/
def NamedByVersion (asset : Text) (names : List Text) : Prop :=
  ∀ name ∈ names, isVersionedBinary asset name = true →
    ∃ v : Version, name = versionedName asset v.text

lemma versionedName_injective (asset : Text) :
    Function.Injective fun v : Version => versionedName asset v.text := by
  intro v w h
  have h : versionedName asset v.text = versionedName asset w.text := h
  rw [versionedName, versionedName, List.append_cancel_left_eq, List.cons.injEq] at h
  exact Version.text_injective h.2

lemma versionedName_lt_iff (asset : Text) {v w : Version} (h : v < w) :
    versionedName asset v.text < versionedName asset w.text ↔ v.ReadsBefore w := by
  rw [versionedName, versionedName, Text.append_lt_append_iff, List.cons_lt_cons_iff,
    ← Version.text_lt_iff h]
  simp

/-- A version ends in a digit, which no download in progress does. -/
lemma isVersionedBinary_versionedName (asset : Text) (v : Version) :
    isVersionedBinary asset (versionedName asset v.text) = true := by
  refine isVersionedBinary_iff.mpr ⟨v.text.tail, rfl, fun hsuffix => ?_⟩
  have hlast : ('-' :: 'v' :: v.text.tail).getLast? = some 'g' := by
    obtain ⟨before, hb⟩ := hsuffix
    have hg : downloadSuffix.getLast? = some 'g' := by decide
    rw [← hb, List.getLast?_append, hg, Option.some_or]
  have hdigit : ∃ c, ('-' :: 'v' :: v.text.tail).getLast? = some c ∧ c.isDigit = true := by
    obtain ⟨s, c, hs⟩ :=
      (List.eq_nil_or_concat (Text.toDigits v.patch)).resolve_left (Text.toDigits_ne_nil _)
    refine ⟨c, ?_, Text.isDigit_of_mem_toDigits (n := v.patch) (by rw [hs]; simp)⟩
    rw [Version.text, hs]
    simp [List.getLast?_append, List.getLast?_cons]
  obtain ⟨c, hc, hisDigit⟩ := hdigit
  rw [hlast, Option.some.injEq] at hc
  rw [← hc] at hisDigit
  exact absurd hisDigit (by decide)

lemma finite_builds (asset : Text) (names : List Text) : (builds asset names).Finite :=
  (List.finite_toSet names).preimage (versionedName_injective asset).injOn

lemma exists_isGreatest_builds {asset : Text} {names : List Text}
    (h : (builds asset names).Nonempty) : ∃ v, IsGreatest (builds asset names) v := by
  obtain ⟨v, hv, hmax⟩ := Set.Finite.exists_maximal (finite_builds asset names) h
  exact ⟨v, hv, fun w hw => (le_total w v).elim id fun hle => hmax hw hle⟩

/-- **The fallback picks the newest build exactly when that build's number, at the first place where
    it differs from another's, is the larger one also as text.** -/
theorem picksNewest_iff {asset : Text} {names : List Text} (hnames : NamedByVersion asset names) :
    PicksNewest asset names (fallbackBinary asset names) ↔
      ∀ v w, IsGreatest (builds asset names) w → v ∈ builds asset names → v ≠ w →
        v.ReadsBefore w := by
  rcases (builds asset names).eq_empty_or_nonempty with hempty | hne
  · -- no versioned build: the legacy name decides, and the condition asks nothing
    have hnone : ∀ name ∈ names, isVersionedBinary asset name = false := by
      intro name hname
      by_contra hv
      obtain ⟨v, rfl⟩ := hnames name hname (Bool.not_eq_false _ ▸ hv)
      exact absurd (show v ∈ builds asset names from hname) (by simp [hempty])
    have hfall := fallbackBinary_of_not_versioned hnone
    refine ⟨fun _ v w _ hv => absurd hv (by simp [hempty]), fun _ => ⟨?_, ?_, ?_⟩⟩
    · intro h
      exact absurd h (by simp [hempty])
    · intro _ hmem
      rw [hfall, if_pos hmem]
    · rw [hfall]
      by_cases hmem : asset ∈ names <;> simp [hempty, hmem]
  · obtain ⟨w, hw⟩ := exists_isGreatest_builds hne
    have hex : ∃ name ∈ names, isVersionedBinary asset name = true :=
      ⟨_, hw.1, isVersionedBinary_versionedName asset w⟩
    obtain ⟨name, hmem, hv, hfall, hmax⟩ := fallbackBinary_eq_some_of_versioned hex
    obtain ⟨u, rfl⟩ := hnames name hmem hv
    have hu : u ∈ builds asset names := hmem
    have hgreatest : ∀ x, IsGreatest (builds asset names) x → x = w := fun x hx => hx.unique hw
    have hpicks : PicksNewest asset names (fallbackBinary asset names) ↔ u = w := by
      rw [PicksNewest, hfall]
      constructor
      · rintro ⟨h, -, -⟩
        obtain ⟨x, hx, hux⟩ := h hne
        rw [Option.some.injEq] at hux
        exact (versionedName_injective asset hux).trans (hgreatest x hx)
      · rintro rfl
        refine ⟨fun _ => ⟨u, hw, rfl⟩, fun h => absurd h hne.ne_empty, ?_⟩
        simp [hne.ne_empty]
    rw [hpicks]
    constructor
    · rintro rfl v x hx hvx hne'
      obtain rfl := hgreatest x hx
      have hlt : v < x := lt_of_le_of_ne (hx.2 hvx) hne'
      have hle := hmax _ hvx (isVersionedBinary_versionedName asset v)
      rw [← versionedName_lt_iff asset hlt]
      exact lt_of_le_of_ne hle fun heq => hne' (versionedName_injective asset heq)
    · intro h
      by_contra hne'
      have hlt : u < w := lt_of_le_of_ne (hw.2 hu) hne'
      have hbefore := (versionedName_lt_iff asset hlt).mpr (h u w hw hu hne')
      have hle := hmax _ hw.1 (isVersionedBinary_versionedName asset w)
      exact absurd hbefore (not_lt.mpr hle)

/-- A directory with the legacy name, an interrupted download and two builds. -/
theorem picksNewest_iff_two_builds :
    let asset := "claude-code-connect-linux-x86_64".toList
    let names := [asset, versionedName asset (Version.mk 0 1 0).text,
      downloadTempName (versionedName asset (Version.mk 0 3 0).text),
      versionedName asset (Version.mk 0 2 0).text]
    NamedByVersion asset names ∧ (PicksNewest asset names (fallbackBinary asset names) ↔
      ∀ v w, IsGreatest (builds asset names) w → v ∈ builds asset names → v ≠ w →
        v.ReadsBefore w) := by
  intro asset names
  have hnamed : NamedByVersion asset names := by
    intro name hname hv
    simp only [names, List.mem_cons, List.not_mem_nil, or_false] at hname
    rcases hname with rfl | rfl | rfl | rfl
    · exact absurd hv (by rw [not_isVersionedBinary_self]; decide)
    · exact ⟨_, rfl⟩
    · exact absurd hv (by rw [not_isVersionedBinary_downloadTempName]; decide)
    · exact ⟨_, rfl⟩
  exact ⟨hnamed, picksNewest_iff hnamed⟩

/-- **`v0.9.0` is preferred to `v0.10.0`.** -/
theorem not_forall_picksNewest : ¬ ∀ (asset : Text) (names : List Text),
    NamedByVersion asset names → PicksNewest asset names (fallbackBinary asset names) := by
  intro h
  let asset := "claude-code-connect-linux-x86_64".toList
  let names := [versionedName asset (Version.mk 0 10 0).text,
    versionedName asset (Version.mk 0 9 0).text]
  have hnamed : NamedByVersion asset names := by
    intro name hname _
    simp only [names, List.mem_cons, List.not_mem_nil, or_false] at hname
    rcases hname with rfl | rfl <;> exact ⟨_, rfl⟩
  have hfall : fallbackBinary asset names = some (versionedName asset (Version.mk 0 9 0).text) := by
    decide +kernel
  have hnew : Version.mk 0 10 0 ∈ builds asset names := List.mem_cons_self
  obtain ⟨v, hv, hpicked⟩ := (h asset names hnamed).1 ⟨_, hnew⟩
  rw [hfall, Option.some.injEq] at hpicked
  obtain rfl : Version.mk 0 9 0 = v := versionedName_injective asset hpicked
  exact absurd (hv.2 hnew) (not_le.mpr (Version.lt_iff.mpr (by decide)))

end Connect
