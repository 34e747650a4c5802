import Mathlib.Data.Nat.Digits

/-! # Rust strings as character lists

Rust strings are sequences of Unicode scalar values addressed by UTF-8 byte offsets. The model
keeps `String` for every name and reasons on `String.data`. Slicing at an offset that splits a
character or passes the end panics in Rust and is `none` here. Integers are printed by
`Nat.repr`, whose digits are those of Rust's `Display` for unsigned integers.
-/

namespace WitParser

/-- `str::strip_prefix`: what follows `pre` in `s`, when `s` begins with it. -/
def stripPrefix (s pre : String) : Option String :=
  if pre.data.isPrefixOf s.data then some ⟨s.data.drop pre.data.length⟩ else none

/-- Number of UTF-8 bytes of a character sequence. -/
def byteSize : List Char → Nat
  | [] => 0
  | c :: cs => c.utf8Size + byteSize cs

/-- The characters left after the first `n` bytes; `none` when `n` splits a character or passes
the end, where Rust's range index panics. -/
def dropBytes : List Char → Nat → Option (List Char)
  | cs, 0 => some cs
  | [], _ + 1 => none
  | c :: cs, n + 1 => if c.utf8Size ≤ n + 1 then dropBytes cs (n + 1 - c.utf8Size) else none

/-- `&s[start..]`. -/
def sliceFrom (s : String) (start : Nat) : Option String := (dropBytes s.data start).map String.mk

/-- `str::find` for one character: the byte offset of its first occurrence. -/
def findChar : List Char → Char → Option Nat
  | [], _ => none
  | d :: ds, c => if d = c then some 0 else (findChar ds c).map (d.utf8Size + ·)

/-- A character of a WIT kebab identifier: an ASCII letter, an ASCII digit or `-`. -/
def isKebabChar (c : Char) : Bool := c.isAlphanum || c == '-'

def IsKebab (s : String) : Prop := ∀ c ∈ s.data, isKebabChar c = true

instance (s : String) : Decidable (IsKebab s) := inferInstanceAs (Decidable (∀ c ∈ s.data, _))

section Strings

@[simp] theorem byteSize_nil : byteSize [] = 0 := rfl

@[simp] theorem byteSize_cons (c : Char) (cs : List Char) :
    byteSize (c :: cs) = c.utf8Size + byteSize cs := rfl

@[simp] theorem byteSize_append (a b : List Char) : byteSize (a ++ b) = byteSize a + byteSize b := by
  induction a with
  | nil => simp
  | cons c a ih => simp [ih, Nat.add_assoc]

theorem utf8ByteSize_eq_byteSize (s : String) : s.utf8ByteSize = byteSize s.data := by
  obtain ⟨cs⟩ := s
  induction cs with
  | nil => rfl
  | cons c cs ih =>
    change String.utf8ByteSize.go cs + c.utf8Size = _
    change String.utf8ByteSize.go cs = _ at ih
    rw [ih, byteSize_cons, Nat.add_comm]

theorem dropBytes_byteSize_append (p s : List Char) : dropBytes (p ++ s) (byteSize p) = some s := by
  induction p with
  | nil => simp [dropBytes]
  | cons c p ih =>
    obtain ⟨k, size⟩ : ∃ k, c.utf8Size + byteSize p = k + 1 :=
      ⟨c.utf8Size + byteSize p - 1, by have := c.utf8Size_pos; omega⟩
    rw [List.cons_append, byteSize_cons, size, dropBytes, if_pos (by omega)]
    rwa [show k + 1 - c.utf8Size = byteSize p by omega]

theorem sliceFrom_append (p s : String) : sliceFrom (p ++ s) (byteSize p.data) = some s := by
  simp [sliceFrom, dropBytes_byteSize_append]

/-- The first occurrence of `c` is found right after a prefix that does not contain it. -/
theorem findChar_append_cons {p : List Char} {c : Char} (absent : c ∉ p) (s : List Char) :
    findChar (p ++ c :: s) c = some (byteSize p) := by
  induction p with
  | nil => simp [findChar]
  | cons d p ih =>
    have other : d ≠ c := fun same => absent (same ▸ List.mem_cons_self d p)
    simp [findChar, other, ih (fun mem => absent (List.mem_cons_of_mem d mem))]

/-- Two splittings at the first occurrence of one separator agree on both sides. -/
theorem append_cons_inj_of_not_mem {a a' b b' : List Char} {c : Char} (left : c ∉ a)
    (left' : c ∉ a') (equal : a ++ c :: b = a' ++ c :: b') : a = a' ∧ b = b' := by
  induction a generalizing a' with
  | nil =>
    cases a' with
    | nil => exact ⟨rfl, List.cons.inj equal |>.2⟩
    | cons d a' =>
      obtain ⟨rfl, -⟩ := List.cons.inj equal
      exact absurd (List.mem_cons_self c a') left'
  | cons d a ih =>
    cases a' with
    | nil =>
      obtain ⟨rfl, -⟩ := List.cons.inj equal
      exact absurd (List.mem_cons_self d a) left
    | cons e a' =>
      obtain ⟨rfl, rest⟩ := List.cons.inj equal
      obtain ⟨rfl, rfl⟩ := ih (fun mem => left (List.mem_cons_of_mem d mem))
        (fun mem => left' (List.mem_cons_of_mem d mem)) rest
      exact ⟨rfl, rfl⟩

/-- A list that ends where a predicate first fails is determined by its concatenation with what
follows. -/
theorem append_inj_of_stop {q : Char → Bool} {a a' t t' : List Char}
    (inside : ∀ c ∈ a, q c = true) (inside' : ∀ c ∈ a', q c = true)
    (stop : ∀ c ∈ t.head?, q c = false) (stop' : ∀ c ∈ t'.head?, q c = false)
    (equal : a ++ t = a' ++ t') : a = a' ∧ t = t' := by
  have front : ∀ {a t : List Char}, (∀ c ∈ a, q c = true) → (∀ c ∈ t.head?, q c = false) →
      (a ++ t).takeWhile q = a := by
    intro a t inside stop
    rw [List.takeWhile_append_of_pos inside]
    cases t with
    | nil => simp
    | cons c t => simp [List.takeWhile_cons, stop c rfl]
  obtain rfl : a = a' := by rw [← front inside stop, equal, front inside' stop']
  exact ⟨rfl, List.append_cancel_left equal⟩

/-- Dropping `n` bytes succeeds exactly when the first `n` bytes are whole characters. -/
theorem dropBytes_eq_some_iff (cs rest : List Char) (n : Nat) :
    dropBytes cs n = some rest ↔ ∃ pre, cs = pre ++ rest ∧ byteSize pre = n := by
  refine ⟨fun drop => ?_, fun ⟨pre, split, size⟩ => split ▸ size ▸ dropBytes_byteSize_append pre rest⟩
  induction cs, n using dropBytes.induct with
  | case1 cs => rw [dropBytes, Option.some.injEq] at drop; exact ⟨[], drop, rfl⟩
  | case2 n => cases drop
  | case3 c cs n fits ih =>
    rw [dropBytes, if_pos fits] at drop
    obtain ⟨pre, rfl, size⟩ := ih drop
    exact ⟨c :: pre, rfl, by simp only [byteSize_cons]; omega⟩
  | case4 c cs n tooBig => rw [dropBytes, if_neg tooBig] at drop; cases drop

/-- `&s[n..]` is what follows a prefix of exactly `n` bytes; it panics where there is none. -/
theorem sliceFrom_eq_some_iff (s item : String) (n : Nat) :
    sliceFrom s n = some item ↔ ∃ pre, s.data = pre ++ item.data ∧ byteSize pre = n := by
  simp only [sliceFrom, Option.map_eq_some']
  constructor
  · rintro ⟨rest, drop, rfl⟩
    exact (dropBytes_eq_some_iff _ _ _).mp drop
  · intro split
    exact ⟨item.data, (dropBytes_eq_some_iff _ _ _).mpr split, rfl⟩

theorem findChar_eq_none_iff (cs : List Char) (c : Char) : findChar cs c = none ↔ c ∉ cs := by
  induction cs with
  | nil => simp [findChar]
  | cons d cs ih =>
    by_cases same : d = c
    · simp [findChar, same]
    · simp [findChar, same, ih, Ne.symm same]

theorem exists_first_split {c : Char} {cs : List Char} (mem : c ∈ cs) :
    ∃ pre post, cs = pre ++ c :: post ∧ c ∉ pre := by
  induction cs with
  | nil => exact absurd mem (List.not_mem_nil c)
  | cons d cs ih =>
    by_cases same : d = c
    · exact ⟨[], cs, by rw [same]; rfl, List.not_mem_nil c⟩
    · obtain ⟨pre, post, rfl, absent⟩ := ih ((List.mem_cons.mp mem).resolve_left (Ne.symm same))
      exact ⟨d :: pre, post, rfl, by simp [Ne.symm same, absent]⟩

end Strings

section Decimal

def digitValue (c : Char) : Nat := c.toNat - '0'.toNat

/-- Reading a list of decimal digit characters back as a number. -/
def readDecimal (cs : List Char) : Nat := cs.foldl (fun acc c => 10 * acc + digitValue c) 0

private theorem digitValue_digitChar : ∀ k < 10, digitValue (Nat.digitChar k) = k := by
  decide

private theorem digitChar_isDigit : ∀ k < 10, (Nat.digitChar k).isDigit = true := by
  decide

private theorem foldl_toDigitsCore (fuel n : Nat) (ds : List Char) (bound : n < fuel) :
    (Nat.toDigitsCore 10 fuel n ds).foldl (fun acc c => 10 * acc + digitValue c) 0 =
      ds.foldl (fun acc c => 10 * acc + digitValue c) n := by
  induction fuel generalizing n ds with
  | zero => omega
  | succ fuel ih =>
    rw [Nat.toDigitsCore]
    split
    · rename_i small
      simp only [List.foldl_cons, digitValue_digitChar _ (Nat.mod_lt n (by decide))]
      congr 1
      omega
    · rename_i large
      rw [ih (n / 10) _ (by omega), List.foldl_cons, digitValue_digitChar _ (Nat.mod_lt n (by decide))]
      congr 1
      omega

/-- Decimal printing has a left inverse. -/
theorem readDecimal_toDigits (n : Nat) : readDecimal (Nat.toDigits 10 n) = n := by
  simpa using foldl_toDigitsCore (n + 1) n [] (Nat.lt_succ_self n)

theorem toDigits_injective : Function.Injective (Nat.toDigits 10) := fun a b equal => by
  rw [← readDecimal_toDigits a, equal, readDecimal_toDigits]

private theorem isDigit_toDigitsCore (fuel n : Nat) (ds : List Char)
    (digits : ∀ c ∈ ds, c.isDigit = true) : ∀ c ∈ Nat.toDigitsCore 10 fuel n ds, c.isDigit = true := by
  induction fuel generalizing n ds with
  | zero => exact digits
  | succ fuel ih =>
    have head : (Nat.digitChar (n % 10)).isDigit = true := digitChar_isDigit _ (Nat.mod_lt n (by decide))
    rw [Nat.toDigitsCore]
    split
    · simpa [head] using digits
    · exact ih _ _ (by simpa [head] using digits)

theorem isDigit_of_mem_toDigits {n : Nat} {c : Char} (mem : c ∈ Nat.toDigits 10 n) : c.isDigit = true :=
  isDigit_toDigitsCore _ n [] (by simp) c mem

theorem not_mem_toDigits {c : Char} (nonDigit : c.isDigit = false) (n : Nat) :
    c ∉ Nat.toDigits 10 n := fun mem => by
  rw [isDigit_of_mem_toDigits mem] at nonDigit
  contradiction

@[simp] theorem repr_data (n : Nat) : (Nat.repr n).data = Nat.toDigits 10 n := rfl

end Decimal

end WitParser
