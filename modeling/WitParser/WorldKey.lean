import WitParser.Text

/-! # World keys and the `[async]` deduplication rule

Imports and exports of a world are maps keyed by `WorldKey`: a kebab name or an interface. The
component model does not allow both `x` and `[async]x`, so equality and hashing of a name key
look at the name with one leading `[async]` removed. A hasher is modelled by the sequence of
writes it receives.
-/

namespace WitParser

/-- `InterfaceId = Id<Interface>` of `id_arena`: an index, and the id of the arena it indexes;
`Id`'s equality and hash compare both, the arena first. -/
@[ext]
structure InterfaceId where
  index : Nat
  arenaId : Nat
deriving DecidableEq

def InterfaceId.eq (a b : InterfaceId) : Bool := a.arenaId == b.arenaId && a.index == b.index

inductive KebabDedupe where
  | normal (s : String)
deriving DecidableEq

/-- `KebabDedupe::from`: a leading `[async]` is stripped, only one. -/
def KebabDedupe.from (s : String) : KebabDedupe :=
  match stripPrefix s "[async]" with
  | some s => .normal s
  | none => .normal s

inductive WorldKey where
  | name (s : String)
  | interface (id : InterfaceId)
deriving DecidableEq

/-- `impl PartialEq for WorldKey`. -/
def WorldKey.eq : WorldKey → WorldKey → Bool
  | .name a, .name b => KebabDedupe.from a == KebabDedupe.from b
  | .name _, _ => false
  | .interface a, .interface b => a.eq b
  | .interface _, _ => false

/-- One call a `Hasher` receives. -/
inductive HashWrite where
  | u8 (value : UInt8)
  | u32 (value : Nat)
  | str (s : String)
  | usize (value : Nat)
deriving DecidableEq

def KebabDedupe.hash : KebabDedupe → List HashWrite
  | .normal s => [.str s]

def InterfaceId.hash (id : InterfaceId) : List HashWrite := [.u32 id.arenaId, .usize id.index]

/-- `impl Hash for WorldKey`: the writes it feeds the hasher, in order; the derived hash of the
one-variant `KebabDedupe` writes its string only. -/
def WorldKey.hash : WorldKey → List HashWrite
  | .name s => .u8 0 :: (KebabDedupe.from s).hash
  | .interface id => .u8 1 :: id.hash

/-- `impl From<WorldKey> for String`. -/
def WorldKey.toString : WorldKey → String
  | .name s => s
  | .interface id => "interface-" ++ Nat.repr id.index

def WorldKey.unwrapName : WorldKey → Except String String
  | .name s => .ok s
  | .interface _ => .error "expected a name, found interface"

/-- What equality and hashing of a key look at. -/
def WorldKey.dedupe : WorldKey → KebabDedupe ⊕ InterfaceId
  | .name s => .inl (KebabDedupe.from s)
  | .interface id => .inr id

theorem InterfaceId.eq_iff (a b : InterfaceId) : a.eq b = true ↔ a = b := by
  rcases a with ⟨index, arenaId⟩
  rcases b with ⟨index', arenaId'⟩
  simp [InterfaceId.eq, and_comm]

theorem WorldKey.eq_iff_dedupe (a b : WorldKey) : a.eq b = true ↔ a.dedupe = b.dedupe := by
  cases a <;> cases b <;> simp [WorldKey.eq, WorldKey.dedupe, InterfaceId.eq_iff]

/-- Keys that equality identifies are hashed by the same writes. -/
theorem WorldKey.hash_congr {a b : WorldKey} (same : a.dedupe = b.dedupe) : a.hash = b.hash := by
  cases a <;> cases b <;> simp_all [WorldKey.dedupe, WorldKey.hash]

/-- The spec's reading of a name: at most one leading `[async]` removed. -/
def withoutAsync (s : String) : List Char :=
  if "[async]".data.isPrefixOf s.data then s.data.drop 7 else s.data

theorem KebabDedupe.from_eq (s : String) : KebabDedupe.from s = .normal ⟨withoutAsync s⟩ := by
  unfold KebabDedupe.from stripPrefix withoutAsync
  split_ifs <;> rfl

theorem withoutAsync_async_append (s : String) : withoutAsync ("[async]" ++ s) = s.data := by
  have prefixed : "[async]".data.isPrefixOf ("[async]" ++ s).data = true :=
    List.isPrefixOf_iff_prefix.mpr (List.prefix_append _ _)
  rw [withoutAsync, if_pos prefixed]
  rfl

/-- World-key equality is an equivalence that hashing respects; name keys are equal exactly when
the names are equal once one leading `[async]` is removed from each, interface keys when the
interfaces are, and a name key never equals an interface key. -/
theorem WorldKey.eq_lawful :
    (∀ a : WorldKey, a.eq a = true) ∧
    (∀ a b : WorldKey, a.eq b = b.eq a) ∧
    (∀ a b c : WorldKey, a.eq b = true → b.eq c = true → a.eq c = true) ∧
    (∀ a b : WorldKey, a.eq b = true → a.hash = b.hash) ∧
    (∀ x y : String, (WorldKey.name x).eq (.name y) = true ↔ withoutAsync x = withoutAsync y) ∧
    (∀ s : String, ¬ "[async]".data <+: s.data →
      (WorldKey.name s).eq (.name ("[async]" ++ s)) = true) ∧
    (∀ i j : InterfaceId, (WorldKey.interface i).eq (.interface j) = true ↔ i = j) ∧
    (∀ (x : String) (i : InterfaceId),
      (WorldKey.name x).eq (.interface i) = false ∧ (WorldKey.interface i).eq (.name x) = false) := by
  have symmetric (a b : WorldKey) : a.eq b = b.eq a :=
    Bool.eq_iff_iff.mpr (by simp only [WorldKey.eq_iff_dedupe]; exact eq_comm)
  simp only [WorldKey.eq_iff_dedupe]
  refine ⟨fun _ => trivial, symmetric, fun a b c => Eq.trans, fun a b => WorldKey.hash_congr,
    fun x y => ?_, fun s plain => ?_, fun i j => ?_, fun x i => ⟨rfl, rfl⟩⟩
  · simp [WorldKey.dedupe, KebabDedupe.from_eq, String.ext_iff]
  · have kept : withoutAsync s = s.data := by
      rw [withoutAsync, if_neg (fun prefixed => plain (List.isPrefixOf_iff_prefix.mp prefixed))]
    simp [WorldKey.dedupe, KebabDedupe.from_eq, kept, withoutAsync_async_append]
  · simp [WorldKey.dedupe]

/-- The string form of a key determines the key, as long as no name spells the form `interface-N`
that an interface key is given and interface keys index one arena: the form shows only the index. -/
theorem WorldKey.eq_of_toString_eq {a b : WorldKey}
    (spelledA : ∀ s n, a = .name s → s ≠ "interface-" ++ Nat.repr n)
    (spelledB : ∀ s n, b = .name s → s ≠ "interface-" ++ Nat.repr n)
    (oneArena : ∀ i j, a = .interface i → b = .interface j → i.arenaId = j.arenaId)
    (equal : a.toString = b.toString) : a = b := by
  cases a with
  | name s =>
    cases b with
    | name t => exact congrArg WorldKey.name equal
    | interface j => exact absurd equal (spelledA s j.index rfl)
  | interface i =>
    cases b with
    | name t => exact absurd equal.symm (spelledB t i.index rfl)
    | interface j =>
      have data := congrArg String.data equal
      simp only [WorldKey.toString, String.data_append, repr_data, List.append_cancel_left_eq] at data
      exact congrArg WorldKey.interface (InterfaceId.ext (toDigits_injective data) (oneArena i j rfl rfl))

theorem poll_eq_of_toString_eq :
    (∀ s n, WorldKey.name "poll" = .name s → s ≠ "interface-" ++ Nat.repr n) ∧
      (∀ i j, WorldKey.name "poll" = .interface i → WorldKey.name "poll" = .interface j →
        i.arenaId = j.arenaId) ∧
      WorldKey.name "poll" = .name "poll" :=
  have spelled : ∀ s n, WorldKey.name "poll" = .name s → s ≠ "interface-" ++ Nat.repr n :=
    fun s n same spells => by
      cases same
      have heads := congrArg (fun s : String => s.data.head?) spells
      simp [String.data_append, List.head?_append] at heads
  have oneArena : ∀ i j, WorldKey.name "poll" = .interface i → WorldKey.name "poll" = .interface j →
      i.arenaId = j.arenaId := fun _ _ named => nomatch named
  ⟨spelled, oneArena, WorldKey.eq_of_toString_eq spelled spelled oneArena rfl⟩

/-- Without the provisos the string forms collide: the name `interface-0` and interface 0, and
index 0 of two arenas. -/
example : (WorldKey.name "interface-0").toString = (WorldKey.interface ⟨0, 0⟩).toString ∧
    (WorldKey.name "interface-0").eq (.interface ⟨0, 0⟩) = false ∧
    (WorldKey.interface ⟨0, 0⟩).toString = (WorldKey.interface ⟨0, 1⟩).toString ∧
    (WorldKey.interface ⟨0, 0⟩).eq (.interface ⟨0, 1⟩) = false := ⟨rfl, rfl, rfl, rfl⟩

end WitParser
