import WitParser.Semver

/-! # Stability annotations

Worlds, interfaces, types and functions carry a stability: none given, `@unstable` with a feature
name, or `@since` a version; either of the last two may be deprecated from a version on. The
derived order ranks the variants in declaration order, `Unknown < Unstable < Stable`, and only
then compares payloads field by field: an unstable item's feature name comes before its
deprecation version.
-/

namespace WitParser

inductive Stability where
  | unknown
  | unstable (feature : String) (deprecated : Option Version)
  | stable (since : Version) (deprecated : Option Version)

def Stability.isUnknown : Stability → Bool
  | .unknown => true
  | _ => false

def Stability.isStable : Stability → Bool
  | .stable .. => true
  | _ => false

def Stability.default : Stability := .unknown

/-- The derived `Ord for Option<Version>`: `None` first. -/
def compareOptionVersion : Option Version → Option Version → Ordering
  | none, none => .eq
  | none, some _ => .lt
  | some _, none => .gt
  | some a, some b => a.cmp b

/-- The derived `Ord for Stability`: the variant first, then the fields in declaration order. -/
def Stability.cmp : Stability → Stability → Ordering
  | .unknown, .unknown => .eq
  | .unknown, _ => .lt
  | .unstable .., .unknown => .gt
  | .unstable feature deprecated, .unstable feature' deprecated' =>
    (compareStr feature.data feature'.data).then (compareOptionVersion deprecated deprecated')
  | .unstable .., .stable .. => .lt
  | .stable .., .unknown | .stable .., .unstable .. => .gt
  | .stable since deprecated, .stable since' deprecated' =>
    (since.cmp since').then (compareOptionVersion deprecated deprecated')

end WitParser
