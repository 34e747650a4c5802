import Mathlib.Data.List.Basic

/-! # The type arena

Type definitions live in an append-only arena and refer to each other by index. A `Type` is a
primitive or such an index; a definition's kind says how it is built from other types. Docs,
owners and stability annotations are left out: nothing modelled here reads them. The arena is
kept in topological order: a definition refers only to earlier ones, so a forward scan, or a
recursion on the index, needs no cycle check.
-/

namespace WitParser

/-- `TypeId = Id<TypeDef>`, kept as its arena index; the arena's own id is left out. -/
abbrev TypeId := Nat

/-- `Type`; renamed, since `Type` is a Lean keyword. -/
inductive WitType where
  | bool | u8 | u16 | u32 | u64 | s8 | s16 | s32 | s64 | f32 | f64 | char | string | errorContext
  | id (id : TypeId)
deriving DecidableEq, Repr

structure Field where
  name : String
  ty : WitType
deriving DecidableEq, Repr

structure Record where
  fields : List Field
deriving DecidableEq, Repr

structure Flag where
  name : String
deriving DecidableEq, Repr

structure Flags where
  flags : List Flag
deriving DecidableEq, Repr

structure Tuple where
  types : List WitType
deriving DecidableEq, Repr

structure Case where
  name : String
  ty : Option WitType
deriving DecidableEq, Repr

structure Variant where
  cases : List Case
deriving DecidableEq, Repr

structure EnumCase where
  name : String
deriving DecidableEq, Repr

structure Enum where
  cases : List EnumCase
deriving DecidableEq, Repr

structure Result_ where
  ok : Option WitType
  err : Option WitType
deriving DecidableEq, Repr

inductive Handle where
  | own (id : TypeId)
  | borrow (id : TypeId)
deriving DecidableEq, Repr

/-- `TypeDefKind`; `unknown` is a foreign type not resolved yet, gone once a `Resolve` is built. -/
inductive TypeDefKind where
  | record (record : Record)
  | resource
  | handle (handle : Handle)
  | flags (flags : Flags)
  | tuple (tuple : Tuple)
  | variant (variant : Variant)
  | enum (enum : Enum)
  | option (ty : WitType)
  | result (result : Result_)
  | list (ty : WitType)
  | fixedSizeList (ty : WitType) (size : UInt32)
  | future (ty : Option WitType)
  | stream (ty : Option WitType)
  | type (ty : WitType)
  | unknown
deriving DecidableEq, Repr

def TypeDefKind.asStr : TypeDefKind → String
  | .record _ => "record"
  | .resource => "resource"
  | .handle (.own _) => "own"
  | .handle (.borrow _) => "borrow"
  | .flags _ => "flags"
  | .tuple _ => "tuple"
  | .variant _ => "variant"
  | .enum _ => "enum"
  | .option _ => "option"
  | .result _ => "result"
  | .list _ => "list"
  | .fixedSizeList .. => "fixed size list"
  | .future _ => "future"
  | .stream _ => "stream"
  | .type _ => "type"
  | .unknown => "unknown"

structure TypeDef where
  name : Option String
  kind : TypeDefKind
deriving DecidableEq, Repr

/-- `Resolve`, reduced to its type arena. -/
structure Resolve where
  types : Array TypeDef
deriving Repr

/-- `Arena::alloc` on the type arena: the new definition gets the next index. -/
def Resolve.allocType (resolve : Resolve) (typeDef : TypeDef) : Resolve × TypeId :=
  (⟨resolve.types.push typeDef⟩, resolve.types.size)

section Order

/-- The types a definition is built from, in source order. A handle's resource is not one. -/
def TypeDefKind.children : TypeDefKind → List WitType
  | .record r => r.fields.map Field.ty
  | .tuple t => t.types
  | .variant v => v.cases.filterMap Case.ty
  | .option ty | .list ty | .fixedSizeList ty _ | .type ty => [ty]
  | .result r => r.ok.toList ++ r.err.toList
  | .future ty | .stream ty => ty.toList
  | .resource | .handle _ | .flags _ | .enum _ | .unknown => []

/-- One more than the index a type refers to; zero for a primitive. -/
def WitType.rank : WitType → Nat
  | .id index => index + 1
  | _ => 0

/-- A type refers into the arena, or is a primitive. -/
def WitType.InRange (ty : WitType) (resolve : Resolve) : Prop := ty.rank ≤ resolve.types.size

/-- Topological order: every type a definition is built from refers to an earlier definition. -/
def Resolve.Ordered (resolve : Resolve) : Prop :=
  ∀ k, (bound : k < resolve.types.size) → ∀ child ∈ resolve.types[k].kind.children, child.rank ≤ k

/-- No definition is a placeholder for an unresolved foreign type. -/
def Resolve.Known (resolve : Resolve) : Prop :=
  ∀ k, (bound : k < resolve.types.size) → resolve.types[k].kind ≠ .unknown

instance (ty : WitType) (resolve : Resolve) : Decidable (ty.InRange resolve) :=
  inferInstanceAs (Decidable (_ ≤ _))

instance (resolve : Resolve) : Decidable resolve.Ordered :=
  inferInstanceAs (Decidable (∀ k, (bound : k < resolve.types.size) → _))

instance (resolve : Resolve) : Decidable resolve.Known :=
  inferInstanceAs (Decidable (∀ k, (bound : k < resolve.types.size) → _))

theorem Resolve.Ordered.children_rank_le {resolve : Resolve} (ordered : resolve.Ordered) {k : Nat}
    {typeDef : TypeDef} (found : resolve.types[k]? = some typeDef) :
    ∀ child ∈ typeDef.kind.children, child.rank ≤ k := by
  obtain ⟨bound, rfl⟩ := Array.getElem?_eq_some_iff.mp found
  exact ordered k bound

theorem Resolve.Known.kind_ne_unknown {resolve : Resolve} (known : resolve.Known) {k : Nat}
    {typeDef : TypeDef} (found : resolve.types[k]? = some typeDef) : typeDef.kind ≠ .unknown := by
  obtain ⟨bound, rfl⟩ := Array.getElem?_eq_some_iff.mp found
  exact known k bound

/-- Allocation adds a definition at the end and leaves every earlier one in place. -/
theorem Resolve.allocType_types_getElem? (resolve : Resolve) (typeDef : TypeDef) (k : Nat) :
    (resolve.allocType typeDef).1.types[k]? =
      if k = resolve.types.size then some typeDef else resolve.types[k]? := by
  simp [Resolve.allocType, Array.getElem?_push]

/-- Allocating a definition built from earlier types keeps the arena in topological order. -/
theorem Resolve.Ordered.allocType {resolve : Resolve} (ordered : resolve.Ordered) {typeDef : TypeDef}
    (earlier : ∀ child ∈ typeDef.kind.children, child.rank ≤ resolve.types.size) :
    (resolve.allocType typeDef).1.Ordered := by
  intro k bound child mem
  have found := Array.getElem?_eq_getElem bound
  rw [Resolve.allocType_types_getElem?] at found
  split_ifs at found with last
  · subst last
    exact earlier child (Option.some.inj found ▸ mem)
  · exact ordered.children_rank_le found child mem

/-- Allocating a resolved definition keeps the arena free of placeholders. -/
theorem Resolve.Known.allocType {resolve : Resolve} (known : resolve.Known) {typeDef : TypeDef}
    (resolved : typeDef.kind ≠ .unknown) : (resolve.allocType typeDef).1.Known := by
  intro k bound
  have found := Array.getElem?_eq_getElem bound
  rw [Resolve.allocType_types_getElem?] at found
  split_ifs at found
  · exact Option.some.inj found ▸ resolved
  · exact known.kind_ne_unknown found

/-- A type arena in topological order and without placeholders, as a resolved package has. -/
structure OrderedResolve where
  resolve : Resolve
  ordered : resolve.Ordered
  known : resolve.Known

def OrderedResolve.allocType (arena : OrderedResolve) (typeDef : TypeDef)
    (earlier : ∀ child ∈ typeDef.kind.children, child.rank ≤ arena.resolve.types.size)
    (resolved : typeDef.kind ≠ .unknown) : OrderedResolve × TypeId :=
  (⟨(arena.resolve.allocType typeDef).1, arena.ordered.allocType earlier,
    arena.known.allocType resolved⟩, (arena.resolve.allocType typeDef).2)

end Order

end WitParser
