import WitParser.ExceptFold
import WitParser.Types
import Mathlib.Data.Nat.Bitwise

/-! # Discriminant and flag representations

The tag of a variant or enum is the narrowest unsigned integer that holds every discriminant;
flags are packed into one byte, one 16-bit word, or as many 32-bit words as they need. Counts
are `usize` on a 64-bit target, with the overflow checks of the fuzzer's builds: an overflow in
the rounding of the flag count panics.
-/

namespace WitParser

/-- `Int`: the unsigned integer types a representation is chosen from. -/
inductive Int where
  | u8
  | u16
  | u32
  | u64
deriving DecidableEq, Repr

def Int.width : Int → Nat
  | .u8 => 8
  | .u16 => 16
  | .u32 => 32
  | .u64 => 64

def checkedSub (a b : Nat) : Option Nat := if b ≤ a then some (a - b) else none

/-- `discriminant_type`, with `u8`, `u16` and `u32::max_value()` written out; the error is the
panic's message. -/
def discriminantType (numCases : Nat) : Except String Int :=
  match checkedSub numCases 1 with
  | none => .ok .u8
  | some n =>
    if n ≤ 255 then .ok .u8
    else if n ≤ 65535 then .ok .u16
    else if n ≤ 4294967295 then .ok .u32
    else .error "too many cases to fit in a repr"

def Variant.tag (variant : Variant) : Except String Int := discriminantType variant.cases.length

def Enum.tag (enum : Enum) : Except String Int := discriminantType enum.cases.length

inductive FlagsRepr where
  | u8
  | u16
  | u32 (count : Nat)
deriving DecidableEq, Repr

def usizeMax : Nat := 2 ^ 64 - 1

/-- `a + b` on `usize` with overflow checks. -/
def addOrPanic (a b : Nat) : Except String Nat :=
  if a + b ≤ usizeMax then .ok (a + b) else .error "attempt to add with overflow"

def subOrPanic (a b : Nat) : Except String Nat :=
  if b ≤ a then .ok (a - b) else .error "attempt to subtract with overflow"

/-- Modelled from the spec: `sizealign::align_to` is not under src/. It rounds `val` up to a
multiple of the power of two `align`, which the spec's `ceil(flag_count/32)` words need, as the
usual `(val + align - 1) & !(align - 1)`; `!` flips the 64 bits of a `usize`. -/
def alignTo (val align : Nat) : Except String Nat := do
  let up ← addOrPanic val align >>= (subOrPanic · 1)
  let low ← subOrPanic align 1
  return up &&& (usizeMax ^^^ low)

def Flags.repr (flags : Flags) : Except String FlagsRepr :=
  match flags.flags.length with
  | 0 => .ok (.u32 0)
  | n =>
    if n ≤ 8 then .ok .u8
    else if n ≤ 16 then .ok .u16
    else (fun rounded => .u32 (rounded / 32)) <$> alignTo n 32

def FlagsRepr.count : FlagsRepr → Nat
  | .u8 => 1
  | .u16 => 1
  | .u32 n => n

def FlagsRepr.width : FlagsRepr → Nat
  | .u8 => 8
  | .u16 => 16
  | .u32 _ => 32

section Discriminant

def discriminantInts : List Int := [.u8, .u16, .u32]

/-- `int` is the narrowest candidate whose range `0 .. 2^width - 1` holds the discriminants
`0 .. n - 1`. -/
def IsNarrowest (int : Int) (n : Nat) : Prop :=
  int ∈ discriminantInts ∧ n ≤ 2 ^ int.width ∧
    ∀ other ∈ discriminantInts, n ≤ 2 ^ other.width → int.width ≤ other.width

/-- What the canonical ABI asks of a discriminant type for `n` cases: a panic exactly above
`2^32` cases, and otherwise the narrowest candidate. -/
def DiscriminantSpec (result : Except String Int) (n : Nat) : Prop :=
  ((∃ message, result = .error message) ↔ 2 ^ 32 < n) ∧
    (n ≤ 2 ^ 32 → ∃ int, result = .ok int ∧ IsNarrowest int n)

theorem discriminantType_eq (n : Nat) : discriminantType n =
    if n ≤ 2 ^ 8 then .ok .u8 else if n ≤ 2 ^ 16 then .ok .u16
    else if n ≤ 2 ^ 32 then .ok .u32 else .error "too many cases to fit in a repr" := by
  cases n with
  | zero => rfl
  | succ m => simp [discriminantType, checkedSub]

/-- A candidate that holds the discriminants and is no wider than any other that does meets the
spec: it is at most `u32`, so there are at most `2^32` cases and no panic is due. -/
private theorem discriminantSpec_ok {int : Int} {n : Nat} (mem : int ∈ discriminantInts)
    (fits : n ≤ 2 ^ int.width)
    (least : ∀ other ∈ discriminantInts, n ≤ 2 ^ other.width → int.width ≤ other.width) :
    DiscriminantSpec (.ok int) n := by
  have small : 2 ^ int.width ≤ 2 ^ 32 := Nat.pow_le_pow_right (by decide) (by
    simp only [discriminantInts, List.mem_cons, List.not_mem_nil, or_false] at mem
    rcases mem with rfl | rfl | rfl <;> decide)
  exact ⟨⟨fun ⟨_, failed⟩ => (nomatch failed), fun over => absurd over (by omega)⟩,
    fun _ => ⟨int, rfl, mem, fits, least⟩⟩

private theorem least_of_widths {n w : Nat}
    (least : (n ≤ 2 ^ 8 → w ≤ 8) ∧ (n ≤ 2 ^ 16 → w ≤ 16) ∧ (n ≤ 2 ^ 32 → w ≤ 32)) :
    ∀ other ∈ discriminantInts, n ≤ 2 ^ other.width → w ≤ other.width := by
  intro other mem
  simp only [discriminantInts, List.mem_cons, List.not_mem_nil, or_false] at mem
  rcases mem with rfl | rfl | rfl
  exacts [least.1, least.2.1, least.2.2]

theorem discriminantSpec_discriminantType (n : Nat) : DiscriminantSpec (discriminantType n) n := by
  rw [discriminantType_eq]
  split_ifs with u8 u16 u32
  · exact discriminantSpec_ok (by decide) u8
      (least_of_widths ⟨fun _ => le_rfl, fun _ => by decide, fun _ => by decide⟩)
  · exact discriminantSpec_ok (by decide) u16
      (least_of_widths ⟨fun fits => absurd fits u8, fun _ => le_rfl, fun _ => by decide⟩)
  · exact discriminantSpec_ok (by decide) u32
      (least_of_widths ⟨fun fits => absurd fits u8, fun fits => absurd fits u16, fun _ => le_rfl⟩)
  · exact ⟨⟨fun _ => by omega, fun _ => ⟨_, rfl⟩⟩, fun fits => absurd fits u32⟩

/-- The discriminant type, and so the tag of every variant and enum, panics exactly above `2^32`
cases and is otherwise the narrowest of `u8`, `u16` and `u32` holding every discriminant. -/
theorem discriminantType_narrowest :
    (∀ n, DiscriminantSpec (discriminantType n) n) ∧
    (∀ variant : Variant, DiscriminantSpec variant.tag variant.cases.length) ∧
    (∀ enum : Enum, DiscriminantSpec enum.tag enum.cases.length) :=
  ⟨discriminantSpec_discriminantType, fun _ => discriminantSpec_discriminantType _,
    fun _ => discriminantSpec_discriminantType _⟩

end Discriminant

section FlagsRepr

end FlagsRepr

end WitParser
