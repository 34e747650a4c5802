import WitParser.Semver

/-! # Package names, interface IDs and semver compatibility tracks

A package is named `namespace:name`, optionally `@version`; an interface of it is named
`namespace:name/interface@version`. Imports are matched across versions by their compatibility
track: a pre-release is its own track, otherwise the first non-zero number and those before it.
-/

namespace WitParser

structure PackageName where
  «namespace» : String
  name : String
  version : Option Version
deriving DecidableEq

def PackageName.interfaceId (p : PackageName) (interface : String) : String :=
  p.«namespace» ++ ":" ++ p.name ++ "/" ++ interface ++
    match p.version with
    | some version => "@" ++ version.toString
    | none => ""

/-- `impl Display for PackageName`. -/
def PackageName.toString (p : PackageName) : String :=
  p.«namespace» ++ ":" ++ p.name ++
    match p.version with
    | some version => "@" ++ version.toString
    | none => ""

def PackageName.versionCompatTrack (version : Version) : Version :=
  let version := { version with build := BuildMetadata.empty }
  if !version.pre.isEmpty then version
  else if version.major != 0 then { version with minor := 0, patch := 0 }
  else if version.minor != 0 then { version with patch := 0 }
  else version

def PackageName.versionCompatTrackString (version : Version) : String :=
  let version := PackageName.versionCompatTrack version
  if !version.pre.isEmpty then version.toString
  else if version.major != 0 then Nat.repr version.major
  else if version.minor != 0 then Nat.repr version.major ++ "." ++ Nat.repr version.minor
  else version.toString

/-- A compatibility track by the numbers that name it; each case carries the test the code makes
before choosing it. -/
inductive Track
  | prerelease (major minor patch : Nat) (pre : Prerelease) (nonempty : pre.isEmpty = false)
  | major (major : Nat) (nonzero : major ≠ 0)
  | minor (minor : Nat) (nonzero : minor ≠ 0)
  | patch (patch : Nat)
deriving DecidableEq

/-- The track a version is on. -/
def Track.ofVersion (v : Version) : Track :=
  if nonempty : v.pre.isEmpty = false then .prerelease v.major v.minor v.patch v.pre nonempty
  else if nonzero : v.major ≠ 0 then .major v.major nonzero
  else if nonzero : v.minor ≠ 0 then .minor v.minor nonzero
  else .patch v.patch

/-- The least version of a track. -/
def Track.toVersion : Track → Version
  | .prerelease x y z pre _ => ⟨x, y, z, pre, .empty⟩
  | .major n _ => ⟨n, 0, 0, .empty, .empty⟩
  | .minor n _ => ⟨0, n, 0, .empty, .empty⟩
  | .patch n => ⟨0, 0, n, .empty, .empty⟩

/-- How import and export names spell a track. -/
def Track.name (track : Track) : String :=
  match track with
  | .prerelease .. => track.toVersion.toString
  | .major n _ => Nat.repr n
  | .minor n _ => Nat.repr 0 ++ "." ++ Nat.repr n
  | .patch _ => track.toVersion.toString

theorem Prerelease.isEmpty_empty : Prerelease.empty.isEmpty = true := rfl

theorem Track.ofVersion_toVersion (track : Track) : Track.ofVersion track.toVersion = track := by
  cases track <;> simp_all [Track.ofVersion, Track.toVersion, Prerelease.isEmpty_empty]

theorem Track.toVersion_injective : Function.Injective Track.toVersion := fun t t' equal => by
  rw [← Track.ofVersion_toVersion t, equal, Track.ofVersion_toVersion]

/-- Which kind of track a name spells: a `-` marks a pre-release, otherwise the dots count. -/
def Track.shape : Track → Nat
  | .prerelease .. => 0
  | .major .. => 1
  | .minor .. => 2
  | .patch _ => 3

private theorem Track.shape_eq (track : Track) : track.shape =
    if '-' ∈ track.name.data then 0 else track.name.data.count '.' + 1 := by
  have noDash (n : Nat) : '-' ∉ Nat.toDigits 10 n := not_mem_toDigits (c := '-') rfl n
  have noDot (n : Nat) : (Nat.toDigits 10 n).count '.' = 0 :=
    List.count_eq_zero_of_not_mem (not_mem_toDigits (c := '.') rfl n)
  cases track with
  | prerelease x y z pre nonempty =>
    have suffix : '-' ∈ (Track.toVersion (.prerelease x y z pre nonempty)).suffix := by
      have present : pre.asStr.data ≠ [] := List.isEmpty_eq_false.mp nonempty
      simp [Version.suffix, Track.toVersion, optionalPart, present]
    simp [Track.shape, Track.name, Version.toString_data, suffix]
  | major => simp [Track.shape, Track.name, noDash, noDot]
  | minor => simp [Track.shape, Track.name, noDash, noDot]
  | patch =>
    simp [Track.shape, Track.name, Track.toVersion, Version.toString_data, Version.suffix,
      optionalPart, BuildMetadata.empty, Identifier.empty, BuildMetadata.asStr, noDash, noDot,
      Prerelease.empty, Prerelease.asStr]

theorem Track.name_injective : Function.Injective Track.name := fun t t' equal => by
  have shapes : t.shape = t'.shape := by rw [Track.shape_eq, Track.shape_eq, equal]
  have data := congrArg String.data equal
  cases t <;> cases t' <;> simp [Track.shape] at shapes
  · exact Track.toVersion_injective (Version.toString_injective equal)
  · simp only [Track.name, repr_data] at data
    obtain rfl := toDigits_injective data
    rfl
  · simp only [Track.name, String.data_append, repr_data, List.append_assoc,
      List.singleton_append] at data
    obtain rfl := toDigits_injective (append_cons_inj_of_not_mem
      (not_mem_toDigits (c := '.') rfl _) (not_mem_toDigits (c := '.') rfl _) data).2
    rfl
  · exact Track.toVersion_injective (Version.toString_injective equal)

theorem PackageName.versionCompatTrack_eq (v : Version) :
    PackageName.versionCompatTrack v = (Track.ofVersion v).toVersion := by
  unfold PackageName.versionCompatTrack Track.ofVersion
  by_cases nonempty : v.pre.isEmpty = false
  · simp [nonempty, Track.toVersion]
  · have empty := Prerelease.eq_empty_of_isEmpty (Bool.not_eq_false _ ▸ nonempty)
    by_cases major : v.major = 0 <;> by_cases minor : v.minor = 0 <;>
      simp [nonempty, major, minor, Track.toVersion, empty, Prerelease.isEmpty_empty]

theorem PackageName.versionCompatTrackString_eq (v : Version) :
    PackageName.versionCompatTrackString v = (Track.ofVersion v).name := by
  simp only [PackageName.versionCompatTrackString, PackageName.versionCompatTrack_eq]
  cases Track.ofVersion v <;> simp_all [Track.toVersion, Track.name, Prerelease.isEmpty_empty]

/-- Track names and tracks determine each other: no two tracks share a name. -/
theorem PackageName.versionCompatTrackString_eq_iff (a b : Version) :
    PackageName.versionCompatTrackString a = PackageName.versionCompatTrackString b ↔
      PackageName.versionCompatTrack a = PackageName.versionCompatTrack b := by
  rw [versionCompatTrackString_eq, versionCompatTrackString_eq, versionCompatTrack_eq,
    versionCompatTrack_eq, Track.name_injective.eq_iff, Track.toVersion_injective.eq_iff]

/-- A version lies on or above the least version of its track. -/
theorem Track.toVersion_ofVersion_le (v : Version) : (Track.ofVersion v).toVersion ≤ v := by
  rw [Track.ofVersion]
  split_ifs with nonempty major minor
  · exact Version.le_of_build_empty rfl le_rfl le_rfl rfl rfl
  all_goals have empty := (Prerelease.eq_empty_of_isEmpty (Bool.not_eq_false _ ▸ nonempty)).symm
  · exact Version.le_of_build_empty rfl (Nat.zero_le _) (Nat.zero_le _) empty rfl
  · exact Version.le_of_build_empty (not_not.mp major).symm le_rfl (Nat.zero_le _) empty rfl
  · exact Version.le_of_build_empty (not_not.mp major).symm (Nat.zero_le _) le_rfl empty rfl

theorem Track.ofVersion_of_release {v : Version} (release : v.pre.isEmpty = true) :
    Track.ofVersion v = if h : v.major ≠ 0 then .major v.major h
      else if h' : v.minor ≠ 0 then .minor v.minor h' else .patch v.patch := by
  simp [Track.ofVersion, release]

/-- Two releases share a track when they agree on the numbers up to the first non-zero one. -/
theorem Track.ofVersion_eq_iff_of_release {a b : Version} (releaseA : a.pre.isEmpty = true)
    (releaseB : b.pre.isEmpty = true) : Track.ofVersion a = Track.ofVersion b ↔
      a.major = b.major ∧ (a.major = 0 → a.minor = b.minor ∧ (a.minor = 0 → a.patch = b.patch)) := by
  rw [Track.ofVersion_of_release releaseA, Track.ofVersion_of_release releaseB]
  by_cases ma : a.major = 0 <;> by_cases mb : b.major = 0 <;> by_cases na : a.minor = 0 <;>
    by_cases nb : b.minor = 0 <;> simp [ma, mb, na, nb] <;> omega

/-- The track is a canonical representative of its class: projecting twice changes nothing, it
lies below every version of its class, and among releases each class is an interval. -/
theorem PackageName.versionCompatTrack_canonical :
    (∀ v, versionCompatTrack (versionCompatTrack v) = versionCompatTrack v) ∧
    (∀ v w, versionCompatTrack w = versionCompatTrack v → versionCompatTrack v ≤ w) ∧
    ∀ a b c : Version, a.pre.isEmpty = true → b.pre.isEmpty = true → c.pre.isEmpty = true →
      a ≤ b → b ≤ c → versionCompatTrack a = versionCompatTrack c →
        versionCompatTrack b = versionCompatTrack a := by
  simp only [versionCompatTrack_eq]
  refine ⟨fun v => by rw [Track.ofVersion_toVersion], fun v w same => ?_, ?_⟩
  · rw [← Track.toVersion_injective same]
    exact Track.toVersion_ofVersion_le w
  · intro a b c releaseA releaseB releaseC ab bc same
    obtain ⟨major, rest⟩ :=
      (Track.ofVersion_eq_iff_of_release releaseA releaseC).mp (Track.toVersion_injective same)
    obtain ⟨abMajor, abRest⟩ := Version.numbers_le_of_le ab
    obtain ⟨bcMajor, bcRest⟩ := Version.numbers_le_of_le bc
    have bMajor : b.major = a.major := by omega
    refine congrArg _ ((Track.ofVersion_eq_iff_of_release releaseB releaseA).mpr ⟨bMajor, ?_⟩)
    intro zeroMajor
    obtain ⟨minor, rest⟩ := rest (bMajor ▸ zeroMajor)
    obtain ⟨abMinor, abPatch⟩ := abRest bMajor.symm
    obtain ⟨bcMinor, bcPatch⟩ := bcRest (by omega)
    have bMinor : b.minor = a.minor := by omega
    refine ⟨bMinor, fun zeroMinor => ?_⟩
    have patch := rest (bMinor ▸ zeroMinor)
    have abPatch := abPatch bMinor.symm
    have bcPatch := bcPatch (by omega)
    omega

section Identifiers

/-- `@version` after a name, or nothing. -/
def versionSuffix : Option Version → List Char
  | some version => '@' :: version.toString.data
  | none => []

theorem PackageName.toString_data (p : PackageName) :
    p.toString.data = p.«namespace».data ++ ':' :: (p.name.data ++ versionSuffix p.version) := by
  cases version : p.version <;> simp [PackageName.toString, versionSuffix, version]

theorem PackageName.interfaceId_data (p : PackageName) (interface : String) :
    (p.interfaceId interface).data = p.«namespace».data ++ ':' ::
      (p.name.data ++ '/' :: (interface.data ++ versionSuffix p.version)) := by
  cases version : p.version <;> simp [PackageName.interfaceId, versionSuffix, version]

theorem versionSuffix_injective : Function.Injective versionSuffix := by
  rintro (_ | v) (_ | w) equal <;> simp only [versionSuffix, List.cons.injEq, reduceCtorEq] at equal
  · rfl
  · exact congrArg some (Version.toString_injective (String.ext equal.2))

private theorem not_isKebabChar_of_mem_head?_versionSuffix {version : Option Version} {c : Char}
    (mem : c ∈ (versionSuffix version).head?) : isKebabChar c = false := by
  cases version with
  | none => simp [versionSuffix] at mem
  | some version =>
    obtain rfl : '@' = c := by simpa [versionSuffix] using mem
    rfl

theorem not_mem_of_isKebab {s : String} (kebab : IsKebab s) {c : Char} (other : isKebabChar c = false) :
    c ∉ s.data := fun mem => by
  rw [kebab c mem] at other
  contradiction

private theorem eq_of_data {p q : PackageName} (namespaces : p.«namespace».data = q.«namespace».data)
    (names : p.name.data = q.name.data) (versions : p.version = q.version) : p = q := by
  cases p; cases q
  simp_all [String.ext_iff]

/-- A package whose namespace and name are kebab identifiers is determined by its text. -/
theorem PackageName.eq_of_toString_eq_of_kebab {p q : PackageName}
    (kebabP : IsKebab p.«namespace» ∧ IsKebab p.name) (kebabQ : IsKebab q.«namespace» ∧ IsKebab q.name)
    (equal : p.toString = q.toString) : p = q := by
  have data := congrArg String.data equal
  simp only [PackageName.toString_data] at data
  obtain ⟨namespaces, data⟩ := append_cons_inj_of_not_mem (not_mem_of_isKebab kebabP.1 (c := ':') rfl)
    (not_mem_of_isKebab kebabQ.1 (c := ':') rfl) data
  obtain ⟨names, versions⟩ := append_inj_of_stop kebabP.2 kebabQ.2
    (fun _ => not_isKebabChar_of_mem_head?_versionSuffix)
    (fun _ => not_isKebabChar_of_mem_head?_versionSuffix) data
  exact eq_of_data namespaces names (versionSuffix_injective versions)

/-- Package names and interface IDs are injective encodings: the textual package identifier
determines the package, and the interface ID also the interface. -/
theorem PackageName.toString_injective_interfaceId_injective (p q : PackageName) (i j : String)
    (kebabP : IsKebab p.«namespace» ∧ IsKebab p.name) (kebabQ : IsKebab q.«namespace» ∧ IsKebab q.name)
    (kebabI : IsKebab i) (kebabJ : IsKebab j) :
    (p.toString = q.toString → p = q) ∧ (p.interfaceId i = q.interfaceId j → p = q ∧ i = j) := by
  refine ⟨PackageName.eq_of_toString_eq_of_kebab kebabP kebabQ, fun equal => ?_⟩
  have data := congrArg String.data equal
  simp only [PackageName.interfaceId_data] at data
  obtain ⟨namespaces, data⟩ := append_cons_inj_of_not_mem (not_mem_of_isKebab kebabP.1 (c := ':') rfl)
    (not_mem_of_isKebab kebabQ.1 (c := ':') rfl) data
  obtain ⟨names, data⟩ := append_cons_inj_of_not_mem (not_mem_of_isKebab kebabP.2 (c := '/') rfl)
    (not_mem_of_isKebab kebabQ.2 (c := '/') rfl) data
  obtain ⟨interfaces, versions⟩ := append_inj_of_stop kebabI kebabJ
    (fun _ => not_isKebabChar_of_mem_head?_versionSuffix)
    (fun _ => not_isKebabChar_of_mem_head?_versionSuffix) data
  exact ⟨eq_of_data namespaces names (versionSuffix_injective versions), String.ext interfaces⟩

/-- The package `wasi:io@0.2.0`. -/
def wasiIo : PackageName := ⟨"wasi", "io", some ⟨0, 2, 0, .empty, .empty⟩⟩

theorem wasiIo_poll_injective :
    (IsKebab "wasi" ∧ IsKebab "io") ∧ IsKebab "poll" ∧
      wasiIo.interfaceId "poll" = "wasi:io/poll@0.2.0" ∧
      (wasiIo.toString = wasiIo.toString → wasiIo = wasiIo) ∧
      (wasiIo.interfaceId "poll" = wasiIo.interfaceId "poll" → wasiIo = wasiIo ∧ "poll" = "poll") :=
  have kebab : IsKebab "wasi" ∧ IsKebab "io" := by decide
  have poll : IsKebab "poll" := by decide
  ⟨kebab, poll, rfl, PackageName.toString_injective_interfaceId_injective wasiIo wasiIo "poll" "poll"
    kebab kebab poll poll⟩

end Identifiers

section Diagnostics

/-- `PackageNotFoundError`, without its span. -/
structure PackageNotFoundError where
  requested : PackageName
  known : List PackageName
  highlighted : Option String

def PackageNotFoundError.new (requested : PackageName) (known : List PackageName) :
    PackageNotFoundError :=
  ⟨requested, known, none⟩

/-- The lines the `Display` loop writes, one per known package. -/
def knownPackageLines : List PackageName → String
  | [] => ""
  | known :: rest => "    " ++ known.toString ++ "\n" ++ knownPackageLines rest

/-- `impl Display for PackageNotFoundError`: the text it writes. -/
def PackageNotFoundError.toString (e : PackageNotFoundError) : String :=
  match e.highlighted with
  | some highlighted => highlighted
  | none =>
    if e.known.isEmpty then "package \x27" ++ e.requested.toString ++ "\x27 not found. no known packages."
    else "package \x27" ++ e.requested.toString ++ "\x27 not found. known packages:\n" ++
      knownPackageLines e.known

/-- A character of a printed package name: a kebab character, `:`, `@` or a version character. -/
def isPackageNameChar (c : Char) : Bool := isKebabChar c || c == ':' || c == '@' || isVersionChar c

theorem PackageName.isPackageNameChar_of_mem_toString {p : PackageName}
    (kebab : IsKebab p.«namespace» ∧ IsKebab p.name) {c : Char} (mem : c ∈ p.toString.data) :
    isPackageNameChar c = true := by
  simp only [PackageName.toString_data, List.mem_append, List.mem_cons] at mem
  rcases mem with mem | rfl | mem | mem
  · simp [isPackageNameChar, kebab.1 c mem]
  · rfl
  · simp [isPackageNameChar, kebab.2 c mem]
  · cases version : p.version with
    | none => simp [versionSuffix, version] at mem
    | some v =>
      simp only [versionSuffix, version, List.mem_cons] at mem
      rcases mem with rfl | mem
      · rfl
      · simp [isPackageNameChar, Version.isVersionChar_of_mem_toString mem]

private theorem knownPackageLines_injective {known known' : List PackageName}
    (kebab : ∀ p ∈ known, IsKebab p.«namespace» ∧ IsKebab p.name)
    (kebab' : ∀ p ∈ known', IsKebab p.«namespace» ∧ IsKebab p.name)
    (equal : (knownPackageLines known).data = (knownPackageLines known').data) : known = known' := by
  induction known generalizing known' with
  | nil =>
    cases known' with
    | nil => rfl
    | cons q qs => simp [knownPackageLines] at equal
  | cons p ps ih =>
    cases known' with
    | nil => simp [knownPackageLines] at equal
    | cons q qs =>
      have newline (r : PackageName) (kebabR : IsKebab r.«namespace» ∧ IsKebab r.name) :
          '\n' ∉ r.toString.data := fun mem =>
        absurd (PackageName.isPackageNameChar_of_mem_toString kebabR mem) (by decide)
      have kebabP := kebab p (List.mem_cons_self p ps)
      have kebabQ := kebab' q (List.mem_cons_self q qs)
      simp only [knownPackageLines, String.data_append, List.append_assoc, List.singleton_append]
        at equal
      obtain ⟨names, rest⟩ := append_cons_inj_of_not_mem (newline p kebabP) (newline q kebabQ)
        (List.append_cancel_left equal)
      exact congrArg₂ List.cons (PackageName.eq_of_toString_eq_of_kebab kebabP kebabQ (String.ext names))
        (ih (fun r mem => kebab r (List.mem_cons_of_mem p mem))
          (fun r mem => kebab' r (List.mem_cons_of_mem q mem)) rest)

/-- What the message of a fresh error writes after the requested package. -/
private def notFoundTail (known : List PackageName) : List Char :=
  if known.isEmpty then " not found. no known packages.".data
  else " not found. known packages:\n".data ++ (knownPackageLines known).data

private theorem notFoundTail_nil_ne_cons (q : PackageName) (qs : List PackageName) :
    notFoundTail [] ≠ notFoundTail (q :: qs) := by
  simp [notFoundTail]

private theorem new_toString_data (requested : PackageName) (known : List PackageName) :
    (PackageNotFoundError.new requested known).toString.data =
      "package \x27".data ++ requested.toString.data ++ '\'' :: notFoundTail known := by
  unfold PackageNotFoundError.new PackageNotFoundError.toString notFoundTail
  split_ifs <;> simp [String.data_append]

/-- A fresh not-found error over kebab package names names its packages unambiguously: its text
determines the requested package and the list of known ones. -/
theorem PackageNotFoundError.toString_new_injective {requested requested' : PackageName}
    {known known' : List PackageName}
    (kebab : ∀ p ∈ requested :: known, IsKebab p.«namespace» ∧ IsKebab p.name)
    (kebab' : ∀ p ∈ requested' :: known', IsKebab p.«namespace» ∧ IsKebab p.name)
    (equal : (PackageNotFoundError.new requested known).toString =
      (PackageNotFoundError.new requested' known').toString) :
    requested = requested' ∧ known = known' := by
  have kebabR := kebab requested (List.mem_cons_self _ _)
  have kebabR' := kebab' requested' (List.mem_cons_self _ _)
  have quote (r : PackageName) (kebabR : IsKebab r.«namespace» ∧ IsKebab r.name) :
      '\'' ∉ r.toString.data := fun mem =>
    absurd (PackageName.isPackageNameChar_of_mem_toString kebabR mem) (by decide)
  have data := congrArg String.data equal
  rw [new_toString_data, new_toString_data, List.append_assoc, List.append_assoc] at data
  obtain ⟨names, tails⟩ := append_cons_inj_of_not_mem (quote _ kebabR) (quote _ kebabR')
    (List.append_cancel_left data)
  refine ⟨PackageName.eq_of_toString_eq_of_kebab kebabR kebabR' (String.ext names), ?_⟩
  cases known with
  | nil =>
    cases known' with
    | nil => rfl
    | cons q qs => exact absurd tails (notFoundTail_nil_ne_cons q qs)
  | cons p ps =>
    cases known' with
    | nil => exact absurd tails.symm (notFoundTail_nil_ne_cons p ps)
    | cons q qs =>
      simp only [notFoundTail, List.isEmpty_cons, Bool.false_eq_true, if_false] at tails
      exact knownPackageLines_injective (fun r mem => kebab r (List.mem_cons_of_mem _ mem))
        (fun r mem => kebab' r (List.mem_cons_of_mem _ mem)) (List.append_cancel_left tails)

theorem wasiIo_notFound_injective :
    (∀ p ∈ [wasiIo, wasiIo], IsKebab p.«namespace» ∧ IsKebab p.name) ∧
      (PackageNotFoundError.new wasiIo [wasiIo]).toString =
        "package \x27wasi:io@0.2.0\x27 not found. known packages:\n    wasi:io@0.2.0\n" ∧
      (wasiIo = wasiIo ∧ [wasiIo] = [wasiIo]) :=
  have kebab : ∀ p ∈ [wasiIo, wasiIo], IsKebab p.«namespace» ∧ IsKebab p.name := by decide
  ⟨kebab, rfl, PackageNotFoundError.toString_new_injective kebab kebab rfl⟩

end Diagnostics

end WitParser
