import WitParser.Types

/-! # Type trees

What the walk over a signature is for. Unfolding every arena reference of a type gives a finite
tree when the arena is in topological order; binding generators number the futures and streams
of a signature by the post-order of these trees, parameter after parameter and then the result.
A handle's resource is not unfolded, so resources, handles, flags and enums have no children.
-/

namespace WitParser

def TypeDefKind.isFutureOrStream : TypeDefKind → Bool
  | .future _ | .stream _ => true
  | _ => false

/-- A type with its arena references unfolded: a node is a definition together with the trees of
the types it is built from. -/
inductive TypeTree where
  | leaf (ty : WitType)
  | node (id : TypeId) (kind : TypeDefKind) (children : List TypeTree)

mutual

/-- The nodes of a tree, each after the nodes of its children, left to right. -/
def TypeTree.postorder : TypeTree → List (TypeId × TypeDefKind)
  | .leaf _ => []
  | .node id kind children => TypeTree.postorderList children ++ [(id, kind)]

def TypeTree.postorderList : List TypeTree → List (TypeId × TypeDefKind)
  | [] => []
  | tree :: trees => tree.postorder ++ TypeTree.postorderList trees

end

/-- The reference order: the post-order of a tree kept to its future and stream nodes. -/
def TypeTree.futuresAndStreams (tree : TypeTree) : List TypeId :=
  (tree.postorder.filter fun node => node.2.isFutureOrStream).map Prod.fst

/-- The reference unfolding of a type through an ordered arena. -/
def Resolve.typeTree (resolve : Resolve) (ordered : resolve.Ordered) : WitType → TypeTree
  | .id id =>
    match found : resolve.types[id]? with
    | some typeDef => .node id typeDef.kind (typeDef.kind.children.attach.map fun child =>
        resolve.typeTree ordered child.1)
    | none => .leaf (.id id)
  | ty => .leaf ty
termination_by ty => ty.rank
decreasing_by
  simp_wf
  exact Nat.lt_succ_of_le (ordered.children_rank_le found child.1 child.2)

/-- `target` is reached from `ty` along the references the walk follows. -/
inductive Resolve.Reaches (resolve : Resolve) : WitType → TypeId → Prop
  | self (id : TypeId) : resolve.Reaches (.id id) id
  | through {id : TypeId} {typeDef : TypeDef} {child : WitType} {target : TypeId}
      (found : resolve.types[id]? = some typeDef) (mem : child ∈ typeDef.kind.children)
      (reaches : resolve.Reaches child target) : resolve.Reaches (.id id) target

/-- No definition reached from `ty` is a placeholder. -/
def Resolve.KnownFrom (resolve : Resolve) (ty : WitType) : Prop :=
  ∀ id typeDef, resolve.Reaches ty id → resolve.types[id]? = some typeDef → typeDef.kind ≠ .unknown

section Unfolding

variable {resolve : Resolve} (ordered : resolve.Ordered)

theorem WitType.eq_id_or_rank_eq_zero (ty : WitType) : (∃ id, ty = .id id) ∨ ty.rank = 0 := by
  cases ty <;> simp [WitType.rank]

theorem TypeTree.postorderList_eq_flatMap (trees : List TypeTree) :
    TypeTree.postorderList trees = trees.flatMap TypeTree.postorder := by
  induction trees with
  | nil => rfl
  | cons tree trees ih => simp [TypeTree.postorderList, ih]

@[simp] theorem TypeTree.futuresAndStreams_leaf (ty : WitType) :
    (TypeTree.leaf ty).futuresAndStreams = [] := rfl

theorem TypeTree.futuresAndStreams_node (id : TypeId) (kind : TypeDefKind) (children : List TypeTree) :
    (TypeTree.node id kind children).futuresAndStreams =
      children.flatMap TypeTree.futuresAndStreams ++ if kind.isFutureOrStream then [id] else [] := by
  simp only [TypeTree.futuresAndStreams, TypeTree.postorder, TypeTree.postorderList_eq_flatMap,
    List.filter_append, List.map_append, List.filter_flatMap, List.map_flatMap]
  split <;> simp [*] <;> rfl

theorem Resolve.typeTree_of_rank_eq_zero {ty : WitType} (primitive : ty.rank = 0) :
    resolve.typeTree ordered ty = .leaf ty := by
  cases ty <;> simp_all [Resolve.typeTree, WitType.rank]

/-- Unfolding a reference to a definition: a node whose children unfold its types in order. -/
theorem Resolve.typeTree_id {id : TypeId} {typeDef : TypeDef} (found : resolve.types[id]? = some typeDef) :
    resolve.typeTree ordered (.id id) =
      .node id typeDef.kind (typeDef.kind.children.map (resolve.typeTree ordered)) := by
  rw [Resolve.typeTree]
  split
  · simp_all [List.attach_map_coe]
  · simp_all

theorem Resolve.Known.knownFrom (known : resolve.Known) (ty : WitType) : resolve.KnownFrom ty :=
  fun _ _ _ found => known.kind_ne_unknown found

theorem Resolve.KnownFrom.kind_ne_unknown {id : TypeId} (known : resolve.KnownFrom (.id id))
    {typeDef : TypeDef} (found : resolve.types[id]? = some typeDef) : typeDef.kind ≠ .unknown :=
  known id typeDef (.self id) found

theorem Resolve.KnownFrom.child {id : TypeId} (known : resolve.KnownFrom (.id id))
    {typeDef : TypeDef} (found : resolve.types[id]? = some typeDef) {child : WitType}
    (mem : child ∈ typeDef.kind.children) : resolve.KnownFrom child :=
  fun target _ reaches => known target _ (.through found mem reaches)

end Unfolding

end WitParser
