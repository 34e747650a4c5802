import WitParser.Stability
import WitParser.PackageName

/-! # The derived orders are linear

Rust's `Ord` asks for a total order that agrees with `Eq`. The orders derived for `PackageName`
and `Stability`, and the one the `semver` crate gives `Version`, are built from the orders of
strings and of numbers by comparing fields in turn, list elements in turn, and classes of values
before their contents. Each of these constructions keeps a linear order linear, so every one of
these orders is linear, with `Equal` only between equal values. As a consequence each semver
compatibility class has exactly one least version, its track.
-/

namespace WitParser

open Batteries

/-- A comparison that orders its type linearly: oriented, with a transitive `≤`, and `Equal`
only between equal values. -/
class LinearCmp {α : Type} (cmp : α → α → Ordering) extends TransCmp cmp : Prop where
  eq_of_cmp_eq {x y : α} : cmp x y = .eq → x = y

/-- The lexicographic order of lists by an order of their elements, a proper prefix first. -/
def lexCompare {α : Type} (step : α → α → Ordering) : List α → List α → Ordering
  | [], [] => .eq
  | [], _ :: _ => .lt
  | _ :: _, [] => .gt
  | x :: xs, y :: ys => (step x y).then (lexCompare step xs ys)

/-- Two classes of values, each ordered by its own comparison, the `first` class below the
other. -/
def classedCompare {α : Type} (first : α → Bool) (cmpFirst cmpSecond : α → α → Ordering)
    (x y : α) : Ordering :=
  match first x, first y with
  | true, true => cmpFirst x y
  | true, false => .lt
  | false, true => .gt
  | false, false => cmpSecond x y

/-- The derived `Ord for PackageName`: namespace, then name, then version. -/
def PackageName.cmp (p q : PackageName) : Ordering :=
  (compareStr p.«namespace».data q.«namespace».data).then <|
    (compareStr p.name.data q.name.data).then (compareOptionVersion p.version q.version)

section Lawful

variable {α β : Type}

theorem LinearCmp.cmp_eq_eq_iff {cmp : α → α → Ordering} [LinearCmp cmp] {x y : α} :
    cmp x y = .eq ↔ x = y :=
  ⟨LinearCmp.eq_of_cmp_eq, fun same => same ▸ OrientedCmp.cmp_refl⟩

/-- Of two values each at most the other, neither is below: they are equal. -/
theorem LinearCmp.le_antisymm {cmp : α → α → Ordering} [LinearCmp cmp] {x y : α}
    (xy : cmp x y ≠ .gt) (yx : cmp y x ≠ .gt) : x = y :=
  match same : cmp x y with
  | .lt => absurd same (OrientedCmp.cmp_ne_gt.mp yx)
  | .eq => LinearCmp.eq_of_cmp_eq same
  | .gt => absurd same xy

/-- Transitivity of a comparison followed by tie-breaks, given transitivity of the tie-breaks. -/
theorem then_ne_gt_trans {cmp : α → α → Ordering} [TransCmp cmp] {x y z : α} {o₁ o₂ o₃ : Ordering}
    (rest : o₁ ≠ .gt → o₂ ≠ .gt → o₃ ≠ .gt) (xy : (cmp x y).then o₁ ≠ .gt)
    (yz : (cmp y z).then o₂ ≠ .gt) : (cmp x z).then o₃ ≠ .gt := by
  simp only [ne_eq, Ordering.then_eq_gt, not_or, not_and] at xy yz ⊢
  refine ⟨TransCmp.le_trans xy.1 yz.1, fun xz => ?_⟩
  match tie : cmp x y with
  | .gt => exact absurd tie xy.1
  | .eq => exact rest (xy.2 tie) (yz.2 ((TransCmp.cmp_congr_left tie).symm.trans xz))
  | .lt =>
    exact absurd (OrientedCmp.cmp_eq_gt.mpr ((TransCmp.cmp_congr_left xz).symm.trans tie)) yz.1

instance (step : α → α → Ordering) [TransCmp step] : OrientedCmp (lexCompare step) where
  symm xs ys := by
    induction xs generalizing ys with
    | nil => cases ys <;> rfl
    | cons x xs ih =>
      cases ys with
      | nil => rfl
      | cons y ys => simp only [lexCompare, Ordering.swap_then, OrientedCmp.symm, ih]

theorem lexCompare_le_trans (step : α → α → Ordering) [TransCmp step] {xs ys zs : List α}
    (xy : lexCompare step xs ys ≠ .gt) (yz : lexCompare step ys zs ≠ .gt) :
    lexCompare step xs zs ≠ .gt := by
  induction xs generalizing ys zs with
  | nil => cases zs <;> nofun
  | cons x xs ih =>
    match ys, zs, xy, yz with
    | [], _, xy, _ => exact absurd rfl xy
    | _ :: _, [], _, yz => exact absurd rfl yz
    | _ :: _, _ :: _, xy, yz => exact then_ne_gt_trans ih xy yz

instance (step : α → α → Ordering) [LinearCmp step] : LinearCmp (lexCompare step) where
  le_trans := lexCompare_le_trans step
  eq_of_cmp_eq {xs ys} same := by
    induction xs generalizing ys with
    | nil => cases ys <;> first | rfl | exact nomatch same
    | cons x xs ih =>
      cases ys with
      | nil => exact nomatch same
      | cons y ys =>
        obtain ⟨head, tail⟩ := Ordering.then_eq_eq.mp same
        rw [LinearCmp.eq_of_cmp_eq head, ih tail]

/-- An order pulled back along an injective key. -/
theorem LinearCmp.byKey {f : α → β} (injective : Function.Injective f) (cmp : β → β → Ordering)
    [LinearCmp cmp] : LinearCmp (Ordering.byKey f cmp) where
  eq_of_cmp_eq same := injective (LinearCmp.eq_of_cmp_eq same)

instance (cmp₁ cmp₂ : α → α → Ordering) [TransCmp cmp₁] [LinearCmp cmp₂] :
    LinearCmp (compareLex cmp₁ cmp₂) where
  eq_of_cmp_eq same := LinearCmp.eq_of_cmp_eq (Ordering.then_eq_eq.mp same).2

instance (first : α → Bool) (cmpFirst cmpSecond : α → α → Ordering) [LinearCmp cmpFirst]
    [LinearCmp cmpSecond] : LinearCmp (classedCompare first cmpFirst cmpSecond) where
  symm x y := by
    unfold classedCompare
    cases first x <;> cases first y <;> simp only [OrientedCmp.symm] <;> rfl
  le_trans {x y z} := by
    unfold classedCompare
    cases first x <;> cases first y <;> cases first z <;> intro xy yz <;>
      simp only at xy yz ⊢ <;>
      first | exact TransCmp.le_trans xy yz | decide | exact absurd rfl xy | exact absurd rfl yz
  eq_of_cmp_eq {x y} := by
    unfold classedCompare
    cases first x <;> cases first y <;> intro same <;> simp only at same ⊢ <;>
      first | exact LinearCmp.eq_of_cmp_eq same | cases same

instance : LinearCmp (compare : Nat → Nat → Ordering) where
  eq_of_cmp_eq := Nat.compare_eq_eq.mp

end Lawful

section Semver

theorem compareStr_eq_lexCompare : compareStr = lexCompare (Ordering.byKey Char.toNat compare) := by
  funext l r
  induction l generalizing r with
  | nil => cases r <;> rfl
  | cons c l ih =>
    cases r with
    | nil => rfl
    | cons d r => simp only [compareStr, lexCompare, ih]; rfl

instance : LinearCmp compareStr :=
  have := LinearCmp.byKey (Function.LeftInverse.injective Char.ofNat_toNat) compare
  compareStr_eq_lexCompare ▸ inferInstance

theorem compareIdentifiers_eq_lexCompare (step : List Char → List Char → Ordering) :
    compareIdentifiers step = lexCompare step := by
  funext ls rs
  induction ls generalizing rs with
  | nil => cases rs <;> rfl
  | cons l ls ih =>
    cases rs with
    | nil => rfl
    | cons r rs => simp only [compareIdentifiers, lexCompare, ih]

instance (step : List Char → List Char → Ordering) [LinearCmp step] :
    LinearCmp (compareIdentifiers step) :=
  compareIdentifiers_eq_lexCompare step ▸ inferInstance

/-- Numeric pre-release identifiers come first, by length and then digit by digit. -/
theorem comparePrereleaseIdentifier_eq : comparePrereleaseIdentifier =
    classedCompare isNumeric (compareLex (compareOn List.length) compareStr) compareStr := by
  funext l r
  unfold comparePrereleaseIdentifier classedCompare
  cases isNumeric l <;> cases isNumeric r <;> rfl

instance : LinearCmp comparePrereleaseIdentifier := comparePrereleaseIdentifier_eq ▸ inferInstance

/-- The digits of a numeric identifier after `trim_start_matches('0')`. -/
def trimZeros (l : List Char) : List Char := l.dropWhile (· == '0')

/-- Two identifiers equal after trimming leading zeros and of one length are equal. -/
theorem eq_of_trimZeros_eq {l r : List Char} (trimmed : trimZeros l = trimZeros r)
    (length : l.length = r.length) : l = r := by
  have zeros (s : List Char) : s.takeWhile (· == '0') =
      List.replicate (s.takeWhile (· == '0')).length '0' :=
    List.eq_replicate_iff.mpr ⟨rfl, fun c mem => by simpa using List.mem_takeWhile_imp mem⟩
  have split (s : List Char) := List.takeWhile_append_dropWhile (· == '0') s
  have zerosLength : (l.takeWhile (· == '0')).length = (r.takeWhile (· == '0')).length := by
    have lengths := congrArg List.length (split l)
    have lengths' := congrArg List.length (split r)
    simp only [List.length_append, trimZeros] at lengths lengths' trimmed
    rw [trimmed] at lengths
    omega
  calc l = l.takeWhile (· == '0') ++ trimZeros l := (split l).symm
    _ = List.replicate (l.takeWhile (· == '0')).length '0' ++ trimZeros l := by rw [← zeros l]
    _ = List.replicate (r.takeWhile (· == '0')).length '0' ++ trimZeros r := by
      rw [zerosLength, trimmed]
    _ = r := by rw [← zeros r]; exact split r

/-- Numeric build identifiers by value, shorter first among equal values. -/
def compareNumericBuild : List Char → List Char → Ordering :=
  compareLex
    (compareLex (compareOn fun l => (trimZeros l).length) (Ordering.byKey trimZeros compareStr))
    (compareOn List.length)

instance : LinearCmp compareNumericBuild where
  toTransCmp := inferInstanceAs (TransCmp (compareLex (compareLex _ _) _))
  eq_of_cmp_eq same := by
    obtain ⟨trimmed, length⟩ := Ordering.then_eq_eq.mp same
    exact eq_of_trimZeros_eq (LinearCmp.eq_of_cmp_eq (Ordering.then_eq_eq.mp trimmed).2)
      (Nat.compare_eq_eq.mp length)

theorem compareBuildIdentifier_eq :
    compareBuildIdentifier = classedCompare isNumeric compareNumericBuild compareStr := by
  funext l r
  unfold compareBuildIdentifier classedCompare
  cases isNumeric l <;> cases isNumeric r <;> rfl

instance : LinearCmp compareBuildIdentifier := compareBuildIdentifier_eq ▸ inferInstance

private theorem splitOn_injective : Function.Injective fun s : String => s.data.splitOn '.' :=
  fun s s' same => String.ext <| by
    rw [← List.intercalate_splitOn s.data '.', ← List.intercalate_splitOn s'.data '.']
    exact congrArg _ same

/-- The release sorts above every pre-release; pre-releases compare identifier by identifier. -/
theorem Prerelease.cmp_eq : Prerelease.cmp = classedCompare (fun pre => !pre.isEmpty)
    (Ordering.byKey (fun pre => pre.asStr.data.splitOn '.')
      (compareIdentifiers comparePrereleaseIdentifier))
    (Ordering.byKey (fun pre => pre.asStr.data.splitOn '.')
      (compareIdentifiers comparePrereleaseIdentifier)) := by
  funext a b
  simp only [Prerelease.cmp, classedCompare]
  cases emptyA : a.isEmpty <;> cases emptyB : b.isEmpty
  · rfl
  · rfl
  · rfl
  · rw [Prerelease.eq_empty_of_isEmpty emptyA, Prerelease.eq_empty_of_isEmpty emptyB]
    rfl

instance : LinearCmp Prerelease.cmp := by
  have := LinearCmp.byKey (f := fun pre : Prerelease => pre.asStr.data.splitOn '.')
    (splitOn_injective.comp Prerelease.asStr_injective)
    (compareIdentifiers comparePrereleaseIdentifier)
  rw [Prerelease.cmp_eq]
  infer_instance

instance : LinearCmp BuildMetadata.cmp :=
  LinearCmp.byKey (splitOn_injective.comp BuildMetadata.asStr_injective) _

theorem Version.eq_of_cmp_eq {a b : Version} (same : a.cmp b = .eq) : a = b := by
  simp only [Version.cmp, Ordering.then_eq_eq, LinearCmp.cmp_eq_eq_iff] at same
  cases a
  cases b
  simp only [Version.mk.injEq]
  exact same

instance : LinearCmp Version.cmp where
  symm a b := by simp only [Version.cmp, Ordering.swap_then, OrientedCmp.symm]
  le_trans := then_ne_gt_trans <| then_ne_gt_trans <| then_ne_gt_trans <|
    then_ne_gt_trans TransCmp.le_trans
  eq_of_cmp_eq := Version.eq_of_cmp_eq

end Semver

section Derived

instance : LinearCmp compareOptionVersion where
  symm a b := by cases a <;> cases b <;> simp only [compareOptionVersion, OrientedCmp.symm] <;> rfl
  le_trans {a b c} ab bc := by
    cases a <;> cases b <;> cases c <;> simp only [compareOptionVersion] at ab bc ⊢ <;>
      first | exact TransCmp.le_trans ab bc | decide | exact absurd rfl ab | exact absurd rfl bc
  eq_of_cmp_eq {a b} same := by
    cases a <;> cases b <;> simp only [compareOptionVersion] at same
    · rfl
    · cases same
    · cases same
    · exact congrArg some (LinearCmp.eq_of_cmp_eq same)

theorem PackageName.eq_of_cmp_eq {p q : PackageName} (same : p.cmp q = .eq) : p = q := by
  simp only [PackageName.cmp, Ordering.then_eq_eq, LinearCmp.cmp_eq_eq_iff] at same
  obtain ⟨«namespace», name, version⟩ := same
  cases p
  cases q
  simp only [PackageName.mk.injEq]
  exact ⟨String.ext «namespace», String.ext name, version⟩

instance : LinearCmp PackageName.cmp where
  symm p q := by simp only [PackageName.cmp, Ordering.swap_then, OrientedCmp.symm]
  le_trans := then_ne_gt_trans <| then_ne_gt_trans TransCmp.le_trans
  eq_of_cmp_eq := PackageName.eq_of_cmp_eq

theorem Stability.eq_of_cmp_eq {a b : Stability} (same : a.cmp b = .eq) : a = b := by
  cases a <;> cases b <;> simp only [Stability.cmp, Ordering.then_eq_eq,
    LinearCmp.cmp_eq_eq_iff, reduceCtorEq] at same
  · rfl
  · rw [String.ext same.1, same.2]
  · rw [same.1, same.2]

instance : LinearCmp Stability.cmp where
  symm a b := by
    cases a <;> cases b <;> simp only [Stability.cmp, Ordering.swap_then, OrientedCmp.symm] <;> rfl
  le_trans {a b c} ab bc := by
    cases a <;> cases b <;> cases c <;> simp only [Stability.cmp] at ab bc ⊢ <;>
      first
        | exact then_ne_gt_trans TransCmp.le_trans ab bc
        | decide
        | exact absurd rfl ab
        | exact absurd rfl bc
  eq_of_cmp_eq := Stability.eq_of_cmp_eq

/-- The orders derived for package names and stabilities, and the semver order of versions, are
linear: each is oriented, its `≤` is transitive, and it says `Equal` only of equal values. -/
theorem derivedOrders_linear :
    LinearCmp Version.cmp ∧ LinearCmp PackageName.cmp ∧ LinearCmp Stability.cmp :=
  ⟨inferInstance, inferInstance, inferInstance⟩

/-- Every compatibility class has exactly one least version, its track: a version of the class
lies at or below the track only when it is the track. -/
theorem PackageName.versionCompatTrack_least (v w : Version)
    (same : PackageName.versionCompatTrack w = PackageName.versionCompatTrack v) :
    w ≤ PackageName.versionCompatTrack v ↔ w = PackageName.versionCompatTrack v := by
  refine ⟨fun below => LinearCmp.le_antisymm below ?_, fun equal => ?_⟩
  · rw [← same, PackageName.versionCompatTrack_eq]
    exact Track.toVersion_ofVersion_le w
  · rw [equal]
    show Version.cmp _ _ ≠ .gt
    simp

theorem release_track_least :
    PackageName.versionCompatTrack ⟨1, 0, 0, .empty, .empty⟩ =
        PackageName.versionCompatTrack ⟨1, 2, 3, .empty, .empty⟩ ∧
      (⟨1, 0, 0, .empty, .empty⟩ ≤ PackageName.versionCompatTrack ⟨1, 2, 3, .empty, .empty⟩ ↔
        ⟨1, 0, 0, .empty, .empty⟩ = PackageName.versionCompatTrack ⟨1, 2, 3, .empty, .empty⟩) :=
  have same : PackageName.versionCompatTrack ⟨1, 0, 0, .empty, .empty⟩ =
      PackageName.versionCompatTrack ⟨1, 2, 3, .empty, .empty⟩ := by decide
  ⟨same, PackageName.versionCompatTrack_least _ _ same⟩

end Derived

end WitParser
