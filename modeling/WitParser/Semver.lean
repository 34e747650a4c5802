import WitParser.Text

/-! # Semver versions as the `semver` crate stores, prints and orders them

The `semver` crate is not under src/: its `Version` is modelled after the SemVer text and
precedence that package versions follow, in the crate's own field layout. A `Version` is three
unsigned numbers, a pre-release and build metadata. Printing is `major.minor.patch`, then `-pre`
and `+build` when present. Ordering is field by field; a pre-release sorts below the release,
build metadata is compared identifier by identifier. The `u64` fields are kept as natural
numbers: they are only compared and printed.
-/

namespace WitParser

/-- A character of a semver identifier, or the dot between two identifiers. -/
def isIdentifierChar (c : Char) : Bool := c.isAlphanum || c == '-' || c == '.'

/-- `semver::Identifier`: empty, or dot-separated identifiers of ASCII alphanumerics and hyphens.
The crate also rejects empty identifiers and leading zeros in numeric pre-release identifiers;
the proofs here need only the character set. -/
structure Identifier where
  str : String
  valid : str.data.all isIdentifierChar = true
deriving DecidableEq

def Identifier.empty : Identifier := ⟨"", rfl⟩

structure Prerelease where
  identifier : Identifier
deriving DecidableEq

structure BuildMetadata where
  identifier : Identifier
deriving DecidableEq

def Prerelease.empty : Prerelease := ⟨Identifier.empty⟩
def Prerelease.asStr (pre : Prerelease) : String := pre.identifier.str
def Prerelease.isEmpty (pre : Prerelease) : Bool := pre.asStr.data.isEmpty

def BuildMetadata.empty : BuildMetadata := ⟨Identifier.empty⟩
def BuildMetadata.asStr (build : BuildMetadata) : String := build.identifier.str
def BuildMetadata.isEmpty (build : BuildMetadata) : Bool := build.asStr.data.isEmpty

/-- Modelled from the spec: `semver::Version`, whose crate is not under src/. -/
structure Version where
  major : Nat
  minor : Nat
  patch : Nat
  pre : Prerelease
  build : BuildMetadata
deriving DecidableEq

/-- Modelled from the spec: `impl Display for semver::Version`, the SemVer text. -/
def Version.toString (v : Version) : String :=
  Nat.repr v.major ++ "." ++ Nat.repr v.minor ++ "." ++ Nat.repr v.patch ++
    (if v.pre.isEmpty then "" else "-" ++ v.pre.asStr) ++
    (if v.build.isEmpty then "" else "+" ++ v.build.asStr)

/-- `Ord for str`: lexicographic on UTF-8 bytes, which orders scalar values the same way. -/
def compareStr : List Char → List Char → Ordering
  | [], [] => .eq
  | [], _ :: _ => .lt
  | _ :: _, [] => .gt
  | a :: as, b :: bs => (compare a.toNat b.toNat).then (compareStr as bs)

/-- `bytes().all(is_ascii_digit)`. -/
def isNumeric (cs : List Char) : Bool := cs.all Char.isDigit

/-- The loop both comparisons share: the first differing identifier decides, and of two lists
with equal identifiers the longer is greater. -/
def compareIdentifiers (step : List Char → List Char → Ordering) :
    List (List Char) → List (List Char) → Ordering
  | [], [] => .eq
  | [], _ :: _ => .lt
  | _ :: _, [] => .gt
  | l :: ls, r :: rs => (step l r).then (compareIdentifiers step ls rs)

/-- Pre-release identifiers: numeric ones by length and then digits, below alphanumeric ones,
which compare lexically. -/
def comparePrereleaseIdentifier (lhs rhs : List Char) : Ordering :=
  match isNumeric lhs, isNumeric rhs with
  | true, true => (compare lhs.length rhs.length).then (compareStr lhs rhs)
  | true, false => .lt
  | false, true => .gt
  | false, false => compareStr lhs rhs

/-- Build identifiers: numeric ones by value ignoring leading zeros, then by length. -/
def compareBuildIdentifier (lhs rhs : List Char) : Ordering :=
  match isNumeric lhs, isNumeric rhs with
  | true, true =>
    let lhval := lhs.dropWhile (· == '0')
    let rhval := rhs.dropWhile (· == '0')
    ((compare lhval.length rhval.length).then (compareStr lhval rhval)).then
      (compare lhs.length rhs.length)
  | true, false => .lt
  | false, true => .gt
  | false, false => compareStr lhs rhs

/-- `Ord for Prerelease`: the release (empty) sorts above every pre-release. -/
def Prerelease.cmp (lhs rhs : Prerelease) : Ordering :=
  match lhs.isEmpty, rhs.isEmpty with
  | true, true => .eq
  | true, false => .gt
  | false, true => .lt
  | false, false => compareIdentifiers comparePrereleaseIdentifier
      (lhs.asStr.data.splitOn '.') (rhs.asStr.data.splitOn '.')

def BuildMetadata.cmp (lhs rhs : BuildMetadata) : Ordering :=
  compareIdentifiers compareBuildIdentifier (lhs.asStr.data.splitOn '.') (rhs.asStr.data.splitOn '.')

/-- Modelled from the spec: the derived `Ord for semver::Version`, field by field in declaration
order. -/
def Version.cmp (a b : Version) : Ordering :=
  (compare a.major b.major).then <| (compare a.minor b.minor).then <|
    (compare a.patch b.patch).then <| (a.pre.cmp b.pre).then (a.build.cmp b.build)

instance : LE Version := ⟨fun a b => a.cmp b ≠ .gt⟩

instance (a b : Version) : Decidable (a ≤ b) := inferInstanceAs (Decidable (a.cmp b ≠ .gt))

section Printing

/-- An identifier is its text: validity is a proof. -/
theorem Identifier.str_injective : Function.Injective Identifier.str := by
  rintro ⟨s, _⟩ ⟨s', _⟩ (rfl : s = s')
  rfl

theorem Prerelease.asStr_injective : Function.Injective Prerelease.asStr :=
  fun ⟨_⟩ ⟨_⟩ same => congrArg Prerelease.mk (Identifier.str_injective same)

theorem BuildMetadata.asStr_injective : Function.Injective BuildMetadata.asStr :=
  fun ⟨_⟩ ⟨_⟩ same => congrArg BuildMetadata.mk (Identifier.str_injective same)

theorem Prerelease.eq_empty_of_isEmpty {pre : Prerelease} (empty : pre.isEmpty = true) :
    pre = Prerelease.empty :=
  Prerelease.asStr_injective (String.ext_iff.mpr (List.isEmpty_iff.mp empty))

/-- A pre-release never contains the `+` that opens build metadata. -/
theorem Prerelease.plus_not_mem (pre : Prerelease) : '+' ∉ pre.asStr.data := fun mem => by
  have valid := List.all_eq_true.mp pre.identifier.valid '+' mem
  contradiction

/-- `sep` and then `s`, or nothing when `s` is empty: how `-pre` and `+build` are printed. -/
def optionalPart (sep : Char) (s : List Char) : List Char := if s.isEmpty then [] else sep :: s

theorem optionalPart_injective (sep : Char) : Function.Injective (optionalPart sep) := by
  intro s s' equal
  cases s <;> cases s' <;> simp_all [optionalPart]

theorem eq_of_mem_head?_optionalPart {sep c : Char} {s : List Char}
    (mem : c ∈ (optionalPart sep s).head?) : c = sep := by
  cases s <;> simp_all [optionalPart]

def Version.suffix (v : Version) : List Char :=
  optionalPart '-' v.pre.asStr.data ++ optionalPart '+' v.build.asStr.data

theorem Version.toString_data (v : Version) : v.toString.data =
    Nat.toDigits 10 v.major ++ '.' :: (Nat.toDigits 10 v.minor ++ '.' ::
      (Nat.toDigits 10 v.patch ++ v.suffix)) := by
  simp only [Version.toString, Version.suffix, optionalPart, Prerelease.isEmpty,
    BuildMetadata.isEmpty, String.data_append, repr_data, List.append_assoc]
  split_ifs <;> rfl

private theorem suffix_injective {v w : Version} (equal : v.suffix = w.suffix) :
    v.pre = w.pre ∧ v.build = w.build := by
  have inside : ∀ u : Version, ∀ c ∈ optionalPart '-' u.pre.asStr.data, (c != '+') = true := by
    intro u c mem
    simp only [optionalPart] at mem
    split_ifs at mem
    · simp at mem
    · rcases List.mem_cons.mp mem with rfl | mem
      · rfl
      · exact bne_iff_ne.mpr fun same => u.pre.plus_not_mem (same ▸ mem)
  have stop : ∀ u : Version, ∀ c ∈ (optionalPart '+' u.build.asStr.data).head?,
      (c != '+') = false := by
    intro u c mem
    simp [eq_of_mem_head?_optionalPart mem]
  obtain ⟨pre, build⟩ := append_inj_of_stop (inside v) (inside w) (stop v) (stop w) equal
  exact ⟨Prerelease.asStr_injective (String.ext_iff.mpr (optionalPart_injective _ pre)),
    BuildMetadata.asStr_injective (String.ext_iff.mpr (optionalPart_injective _ build))⟩

private theorem not_isDigit_of_mem_head?_suffix {v : Version} {c : Char}
    (mem : c ∈ v.suffix.head?) : c.isDigit = false := by
  simp only [Version.suffix, List.head?_append, Option.mem_def, Option.or_eq_some] at mem
  rcases mem with mem | ⟨-, mem⟩
  · rw [eq_of_mem_head?_optionalPart mem]; rfl
  · rw [eq_of_mem_head?_optionalPart mem]; rfl

def isVersionChar (c : Char) : Bool := isIdentifierChar c || c == '+'

/-- A printed version consists of version characters only. -/
theorem Version.isVersionChar_of_mem_toString {v : Version} {c : Char} (mem : c ∈ v.toString.data) :
    isVersionChar c = true := by
  have digit {n : Nat} (mem : c ∈ Nat.toDigits 10 n) : isVersionChar c = true := by
    simp [isVersionChar, isIdentifierChar, Char.isAlphanum, isDigit_of_mem_toDigits mem]
  have part (sep : Char) (i : Identifier) (valid : isVersionChar sep = true)
      (mem : c ∈ optionalPart sep i.str.data) : isVersionChar c = true := by
    unfold optionalPart at mem
    split_ifs at mem
    · simp at mem
    · rcases List.mem_cons.mp mem with rfl | mem
      · exact valid
      · simp [isVersionChar, List.all_eq_true.mp i.valid c mem]
  simp only [Version.toString_data, Version.suffix, List.mem_append, List.mem_cons] at mem
  rcases mem with mem | rfl | mem | rfl | mem | mem | mem
  · exact digit mem
  · rfl
  · exact digit mem
  · rfl
  · exact digit mem
  · exact part '-' v.pre.identifier rfl mem
  · exact part '+' v.build.identifier rfl mem

/-- Distinct versions print differently. -/
theorem Version.toString_injective : Function.Injective Version.toString := by
  intro v w equal
  have data := congrArg String.data equal
  simp only [Version.toString_data] at data
  obtain ⟨major, data⟩ := append_cons_inj_of_not_mem (not_mem_toDigits (c := '.') rfl _)
    (not_mem_toDigits (c := '.') rfl _) data
  obtain ⟨minor, data⟩ := append_cons_inj_of_not_mem (not_mem_toDigits (c := '.') rfl _)
    (not_mem_toDigits (c := '.') rfl _) data
  obtain ⟨patch, suffix⟩ := append_inj_of_stop (q := Char.isDigit)
    (fun _ => isDigit_of_mem_toDigits) (fun _ => isDigit_of_mem_toDigits)
    (fun _ => not_isDigit_of_mem_head?_suffix) (fun _ => not_isDigit_of_mem_head?_suffix) data
  obtain ⟨pre, build⟩ := suffix_injective suffix
  cases v; cases w
  simp_all [toDigits_injective.eq_iff]

end Printing

section Order

theorem then_ne_gt_iff {o o' : Ordering} : o.then o' ≠ .gt ↔ o ≠ .gt ∧ (o = .eq → o' ≠ .gt) := by
  cases o <;> simp [Ordering.then]

@[simp] theorem compare_self_eq (n : Nat) : compare n n = .eq := Nat.compare_eq_eq.mpr rfl

private theorem compare_ne_gt_iff {a b : Nat} : compare a b ≠ .gt ↔ a ≤ b := by
  rw [Ne, Nat.compare_eq_gt, Nat.not_lt]

@[simp] theorem compareStr_self (l : List Char) : compareStr l l = .eq := by
  induction l with
  | nil => rfl
  | cons c l ih => simp [compareStr, ih, Ordering.then]

theorem compareStr_nil_ne_gt (l : List Char) : compareStr [] l ≠ .gt := by
  cases l <;> simp [compareStr]

theorem compareIdentifiers_self {step : List Char → List Char → Ordering}
    (refl : ∀ l, step l l = .eq) (ls : List (List Char)) : compareIdentifiers step ls ls = .eq := by
  induction ls with
  | nil => rfl
  | cons l ls ih => simp [compareIdentifiers, refl, ih, Ordering.then]

@[simp] theorem Prerelease.cmp_self (pre : Prerelease) : pre.cmp pre = .eq := by
  have refl (l : List Char) : comparePrereleaseIdentifier l l = .eq := by
    simp only [comparePrereleaseIdentifier]
    split <;> simp_all [Ordering.then]
  simp only [Prerelease.cmp]
  split <;> simp_all [compareIdentifiers_self refl]

@[simp] theorem BuildMetadata.cmp_self (build : BuildMetadata) : build.cmp build = .eq := by
  have refl (l : List Char) : compareBuildIdentifier l l = .eq := by
    simp only [compareBuildIdentifier]
    split <;> simp_all [Ordering.then]
  exact compareIdentifiers_self refl _

@[simp] theorem Version.cmp_self (v : Version) : v.cmp v = .eq := by
  simp [Version.cmp, Ordering.then]

/-- Empty build metadata sorts first. -/
theorem BuildMetadata.empty_cmp_ne_gt (build : BuildMetadata) : BuildMetadata.empty.cmp build ≠ .gt := by
  have first (r : List Char) : compareBuildIdentifier [] r ≠ .gt := by
    simp only [compareBuildIdentifier, isNumeric, List.all_nil]
    split
    · simp only [List.dropWhile_nil, List.length_nil]
      refine then_ne_gt_iff.mpr ⟨then_ne_gt_iff.mpr ⟨compare_ne_gt_iff.mpr (Nat.zero_le _), ?_⟩,
        fun _ => compare_ne_gt_iff.mpr (Nat.zero_le _)⟩
      exact fun _ => compareStr_nil_ne_gt _
    · simp
    · simp_all
    · simp_all
  obtain ⟨r, rs, split⟩ : ∃ r rs, build.asStr.data.splitOn '.' = r :: rs :=
    List.exists_cons_of_ne_nil (List.splitOnP_ne_nil _ _)
  have rest : compareIdentifiers compareBuildIdentifier [] rs ≠ .gt := by
    cases rs <;> simp [compareIdentifiers]
  simp only [BuildMetadata.cmp, split]
  exact then_ne_gt_iff.mpr ⟨first r, fun _ => rest⟩

/-- A version with empty build metadata lies below any version with the same major number, the
same pre-release and minor and patch numbers at least as large. -/
theorem Version.le_of_build_empty {a b : Version} (major : a.major = b.major) (minor : a.minor ≤ b.minor)
    (patch : a.patch ≤ b.patch) (pre : a.pre = b.pre) (build : a.build = BuildMetadata.empty) :
    a ≤ b := by
  show a.cmp b ≠ .gt
  simp only [Version.cmp, major, pre, build, compare_self_eq, Prerelease.cmp_self]
  exact then_ne_gt_iff.mpr ⟨by decide, fun _ => then_ne_gt_iff.mpr ⟨compare_ne_gt_iff.mpr minor,
    fun _ => then_ne_gt_iff.mpr ⟨compare_ne_gt_iff.mpr patch,
      fun _ => then_ne_gt_iff.mpr ⟨by decide, fun _ => BuildMetadata.empty_cmp_ne_gt _⟩⟩⟩⟩

/-- The numbers of ordered versions are ordered lexicographically. -/
theorem Version.numbers_le_of_le {a b : Version} (le : a ≤ b) :
    a.major ≤ b.major ∧ (a.major = b.major → a.minor ≤ b.minor ∧
      (a.minor = b.minor → a.patch ≤ b.patch)) := by
  obtain ⟨major, rest⟩ := then_ne_gt_iff.mp le
  refine ⟨compare_ne_gt_iff.mp major, fun sameMajor => ?_⟩
  obtain ⟨minor, rest⟩ := then_ne_gt_iff.mp (rest (Nat.compare_eq_eq.mpr sameMajor))
  exact ⟨compare_ne_gt_iff.mp minor, fun sameMinor =>
    compare_ne_gt_iff.mp (then_ne_gt_iff.mp (rest (Nat.compare_eq_eq.mpr sameMinor))).1⟩

end Order

end WitParser
