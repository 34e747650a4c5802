import WitParser.FuturesAndStreams

/-! # What binding generators rely on in the futures and streams of a signature

Binding generators refer to the futures and streams of a function by their position in the list
the walk returns: `[future-new-k]f` is `future.new` for the `k`-th. That list holds exactly the
future and stream definitions reachable from the signature, and every occurrence comes after the
futures and streams inside it, so inner types are numbered before the types built from them. The
walk reads only definitions reachable from the signature: on any arena that extends the one the
signature was resolved in, as allocation does, it returns the same, for any fuel.
-/

namespace WitParser

/-- The definition at `id` is a future or a stream. -/
def Resolve.IsFutureOrStream (resolve : Resolve) (id : TypeId) : Prop :=
  ∃ typeDef, resolve.types[id]? = some typeDef ∧ typeDef.kind.isFutureOrStream = true

/-- `inner` is reached from one of the types the definition at `outer` is built from. -/
def Resolve.Inside (resolve : Resolve) (outer inner : TypeId) : Prop :=
  ∃ typeDef, resolve.types[outer]? = some typeDef ∧
    ∃ child ∈ typeDef.kind.children, resolve.Reaches child inner

/-- Every entry comes after the futures and streams inside it. -/
def Resolve.InnerFirst (resolve : Resolve) (ids : List TypeId) : Prop :=
  ∀ before id after, ids = before ++ id :: after →
    ∀ inner, resolve.Inside id inner → resolve.IsFutureOrStream inner → inner ∈ before

section Trees

variable {resolve : Resolve} (ordered : resolve.Ordered)

private theorem typeTree_id_of_none {id : TypeId} (missing : resolve.types[id]? = none) :
    resolve.typeTree ordered (.id id) = .leaf (.id id) := by
  rw [Resolve.typeTree]
  split <;> simp_all

include ordered in
/-- Induction along the trees of an ordered arena: the children of a found definition come first. -/
private theorem typeTree_induction {motive : WitType → Prop} (primitive : ∀ ty : WitType, ty.rank = 0 → motive ty)
    (missing : ∀ id, resolve.types[id]? = none → motive (.id id))
    (found : ∀ id typeDef, resolve.types[id]? = some typeDef →
      (∀ child ∈ typeDef.kind.children, motive child) → motive (.id id))
    (ty : WitType) : motive ty := by
  obtain ⟨i, rfl⟩ | zero := ty.eq_id_or_rank_eq_zero
  · cases lookup : resolve.types[i]? with
    | none => exact missing i lookup
    | some typeDef =>
      refine found i typeDef lookup fun child mem => ?_
      have _earlier : child.rank < (WitType.id i).rank := Nat.lt_succ_of_le (ordered.children_rank_le lookup child mem)
      exact typeTree_induction primitive missing found child
  · exact primitive ty zero
termination_by ty.rank

/-- The futures and streams of a type's tree are the future and stream definitions it reaches. -/
theorem Resolve.mem_futuresAndStreams_typeTree (ty : WitType) (id : TypeId) :
    id ∈ (resolve.typeTree ordered ty).futuresAndStreams ↔
      resolve.Reaches ty id ∧ resolve.IsFutureOrStream id := by
  constructor
  · induction ty using typeTree_induction ordered with
    | primitive ty zero => simp [resolve.typeTree_of_rank_eq_zero ordered zero]
    | missing i lookup => simp [typeTree_id_of_none ordered lookup]
    | found i typeDef lookup ih =>
      rw [resolve.typeTree_id ordered lookup, TypeTree.futuresAndStreams_node, List.mem_append,
        List.flatMap_map, List.mem_flatMap]
      rintro (⟨child, mem, inChild⟩ | here)
      · obtain ⟨reaches, fs⟩ := ih child mem inChild
        exact ⟨.through lookup mem reaches, fs⟩
      · split_ifs at here with fs
        · rw [List.mem_singleton.mp here]
          exact ⟨.self i, typeDef, lookup, fs⟩
        · exact absurd here (List.not_mem_nil id)
  · rintro ⟨reaches, fs⟩
    induction reaches with
    | self i =>
      obtain ⟨typeDef, found, isFs⟩ := fs
      rw [resolve.typeTree_id ordered found, TypeTree.futuresAndStreams_node]
      simp [isFs]
    | through found mem _ ih =>
      rw [resolve.typeTree_id ordered found, TypeTree.futuresAndStreams_node, List.flatMap_map]
      exact List.mem_append_left _ (List.mem_flatMap.mpr ⟨_, mem, ih fs⟩)

theorem Resolve.InnerFirst.nil : resolve.InnerFirst [] :=
  fun before _ _ split => absurd split (by simp)

theorem Resolve.InnerFirst.append {l l' : List TypeId} (first : resolve.InnerFirst l)
    (second : resolve.InnerFirst l') : resolve.InnerFirst (l ++ l') := by
  intro before id after split inner inside fs
  rcases List.append_eq_append_iff.mp split with ⟨middle, rfl, rest⟩ | ⟨middle, rfl, rest⟩
  · exact List.mem_append_right _ (second middle id after rest inner inside fs)
  · cases middle with
    | nil => exact absurd (second [] id after (by simpa using rest.symm) inner inside fs) nofun
    | cons x middle =>
      obtain ⟨rfl, -⟩ := List.cons.inj rest
      exact first before id middle rfl inner inside fs

theorem Resolve.InnerFirst.flatMap {α : Type} {l : List α} {g : α → List TypeId}
    (each : ∀ a ∈ l, resolve.InnerFirst (g a)) : resolve.InnerFirst (l.flatMap g) := by
  induction l with
  | nil => exact .nil
  | cons a l ih =>
    rw [List.flatMap_cons]
    exact (each a (List.mem_cons_self a l)).append (ih fun b mem => each b (List.mem_cons_of_mem a mem))

/-- Appending an entry after everything inside it keeps the order. -/
theorem Resolve.InnerFirst.snoc {l : List TypeId} {id : TypeId} (ordered' : resolve.InnerFirst l)
    (inside : ∀ inner, resolve.Inside id inner → resolve.IsFutureOrStream inner → inner ∈ l) :
    resolve.InnerFirst (l ++ [id]) := by
  intro before x after split inner within fs
  rcases after.eq_nil_or_concat with rfl | ⟨after, y, rfl⟩
  · obtain ⟨rfl, same⟩ := List.append_inj' split rfl
    obtain rfl := List.singleton_inj.mp same
    exact inside inner within fs
  · rw [List.concat_eq_append, ← List.cons_append, ← List.append_assoc] at split
    exact ordered' before x after (List.append_inj' split rfl).1 inner within fs

/-- In a type's tree, every future or stream comes after the futures and streams inside it. -/
theorem Resolve.innerFirst_typeTree (ty : WitType) :
    resolve.InnerFirst (resolve.typeTree ordered ty).futuresAndStreams := by
  induction ty using typeTree_induction ordered with
  | primitive ty zero => simpa [resolve.typeTree_of_rank_eq_zero ordered zero] using Resolve.InnerFirst.nil
  | missing i lookup => simpa [typeTree_id_of_none ordered lookup] using Resolve.InnerFirst.nil
  | found i typeDef lookup ih =>
    have children : resolve.InnerFirst
        (typeDef.kind.children.flatMap fun child => (resolve.typeTree ordered child).futuresAndStreams) :=
      .flatMap ih
    rw [resolve.typeTree_id ordered lookup, TypeTree.futuresAndStreams_node, List.flatMap_map]
    split_ifs
    · refine children.snoc fun inner ⟨typeDef', found', child, mem, reaches⟩ fs => ?_
      obtain rfl : typeDef' = typeDef := Option.some.inj (found'.symm.trans lookup)
      exact List.mem_flatMap.mpr ⟨child, mem,
        (resolve.mem_futuresAndStreams_typeTree ordered child inner).mpr ⟨reaches, fs⟩⟩
    · simpa using children

end Trees

section Signature

/-- On an ordered arena, with enough fuel, the walk over a signature returns exactly the future
and stream definitions that its parameter and result types reach. -/
theorem Function.findFuturesAndStreams_mem_iff (resolve : Resolve) (ordered : resolve.Ordered)
    (f : Function) (inRange : ∀ ty ∈ f.parameterAndResultTypes, ty.InRange resolve)
    (known : ∀ ty ∈ f.parameterAndResultTypes, resolve.KnownFrom ty) (fuel : Nat)
    (enough : resolve.types.size ≤ fuel) :
    ∃ found, f.findFuturesAndStreams resolve fuel = .ok found ∧ ∀ id, id ∈ found ↔
      resolve.IsFutureOrStream id ∧ ∃ ty ∈ f.parameterAndResultTypes, resolve.Reaches ty id := by
  refine ⟨_, f.findFuturesAndStreams_eq_typeTree ordered inRange known enough, fun id => ?_⟩
  simp only [List.mem_flatMap, resolve.mem_futuresAndStreams_typeTree ordered]
  exact ⟨fun ⟨ty, mem, reaches, fs⟩ => ⟨fs, ty, mem, reaches⟩,
    fun ⟨fs, ty, mem, reaches⟩ => ⟨ty, mem, reaches, fs⟩⟩

theorem testFunction_findFuturesAndStreams_mem_iff :
    testTypes.Ordered ∧ (∀ ty ∈ testFunction.parameterAndResultTypes, ty.InRange testTypes) ∧
      (∀ ty ∈ testFunction.parameterAndResultTypes, testTypes.KnownFrom ty) ∧
      testTypes.types.size ≤ 3 ∧
      ∃ found, testFunction.findFuturesAndStreams testTypes 3 = .ok found ∧ ∀ id, id ∈ found ↔
        testTypes.IsFutureOrStream id ∧
          ∃ ty ∈ testFunction.parameterAndResultTypes, testTypes.Reaches ty id :=
  have ordered : testTypes.Ordered := by decide
  have inRange : ∀ ty ∈ testFunction.parameterAndResultTypes, ty.InRange testTypes := by decide
  have known : ∀ ty ∈ testFunction.parameterAndResultTypes, testTypes.KnownFrom ty :=
    fun ty _ => Resolve.Known.knownFrom (by decide) ty
  have enough : testTypes.types.size ≤ 3 := by decide
  ⟨ordered, inRange, known, enough,
    Function.findFuturesAndStreams_mem_iff testTypes ordered testFunction inRange known 3 enough⟩

/-- On an ordered arena, with enough fuel, the walk over a signature lists every future or stream
after the futures and streams inside it, at each of its occurrences: the number a binding
generator gives an inner type is below the numbers of the types built from it. -/
theorem Function.findFuturesAndStreams_innerFirst (resolve : Resolve) (ordered : resolve.Ordered)
    (f : Function) (inRange : ∀ ty ∈ f.parameterAndResultTypes, ty.InRange resolve)
    (known : ∀ ty ∈ f.parameterAndResultTypes, resolve.KnownFrom ty) (fuel : Nat)
    (enough : resolve.types.size ≤ fuel) :
    ∃ found, f.findFuturesAndStreams resolve fuel = .ok found ∧ resolve.InnerFirst found :=
  ⟨_, f.findFuturesAndStreams_eq_typeTree ordered inRange known enough,
    .flatMap fun ty _ => resolve.innerFirst_typeTree ordered ty⟩

theorem testFunction_findFuturesAndStreams_innerFirst :
    testTypes.Ordered ∧ (∀ ty ∈ testFunction.parameterAndResultTypes, ty.InRange testTypes) ∧
      (∀ ty ∈ testFunction.parameterAndResultTypes, testTypes.KnownFrom ty) ∧
      testTypes.types.size ≤ 3 ∧
      ∃ found, testFunction.findFuturesAndStreams testTypes 3 = .ok found ∧
        testTypes.InnerFirst found :=
  have ordered : testTypes.Ordered := by decide
  have inRange : ∀ ty ∈ testFunction.parameterAndResultTypes, ty.InRange testTypes := by decide
  have known : ∀ ty ∈ testFunction.parameterAndResultTypes, testTypes.KnownFrom ty :=
    fun ty _ => Resolve.Known.knownFrom (by decide) ty
  have enough : testTypes.types.size ≤ 3 := by decide
  ⟨ordered, inRange, known, enough,
    Function.findFuturesAndStreams_innerFirst testTypes ordered testFunction inRange known 3 enough⟩

end Signature

section Growth

variable {resolve resolve' : Resolve} (ordered : resolve.Ordered)
  (grown : resolve.types.toList <+: resolve'.types.toList)

include grown in
private theorem getElem?_of_grown {i : Nat} (bound : i < resolve.types.size) :
    resolve'.types[i]? = resolve.types[i]? := by
  obtain ⟨tail, grown⟩ := grown
  rw [Array.getElem?_eq_getElem?_toList, Array.getElem?_eq_getElem?_toList, ← grown]
  exact List.getElem?_append_left (by simpa using bound)

include ordered grown in
/-- The walk from an in-range type reads only definitions below the old size. -/
theorem findFuturesAndStreams_eq_of_grown (fuel : Nat) {ty : WitType} (inRange : ty.InRange resolve)
    (results : List TypeId) :
    findFuturesAndStreams resolve' fuel ty results = findFuturesAndStreams resolve fuel ty results := by
  induction fuel generalizing ty results with
  | zero => cases ty <;> rfl
  | succ fuel ih =>
    obtain ⟨i, rfl⟩ | primitive := ty.eq_id_or_rank_eq_zero
    · obtain ⟨typeDef, found⟩ : ∃ typeDef, resolve.types[i]? = some typeDef :=
        ⟨_, Array.getElem?_eq_getElem inRange⟩
      have found' := (getElem?_of_grown grown inRange).trans found
      rw [findFuturesAndStreams_succ_id, findFuturesAndStreams_succ_id,
        Resolve.typeDef_of_found found, Resolve.typeDef_of_found found']
      simp only [except_ok_bind]
      rw [foldlM_congr_mem fun child mem results => ih (Nat.le_trans (ordered.children_rank_le found child mem)
          (Nat.le_of_lt inRange)) results]
    · rw [findFuturesAndStreams_of_rank_eq_zero resolve' _ primitive,
        findFuturesAndStreams_of_rank_eq_zero resolve _ primitive]

include ordered grown in
/-- Growing the arena changes nothing for a signature resolved before: on any arena that extends
an ordered one, as every allocation does, the walk over a signature whose types were in range
returns what it returned before, for any fuel, panics and running out of fuel included. -/
theorem Function.findFuturesAndStreams_of_grown (f : Function)
    (inRange : ∀ ty ∈ f.parameterAndResultTypes, ty.InRange resolve) (fuel : Nat) :
    f.findFuturesAndStreams resolve' fuel = f.findFuturesAndStreams resolve fuel := by
  rw [Function.findFuturesAndStreams_eq, Function.findFuturesAndStreams_eq]
  exact foldlM_congr_mem (fun ty mem results =>
    WitParser.findFuturesAndStreams_eq_of_grown ordered grown fuel (inRange ty mem) results) []

end Growth

theorem testFunction_findFuturesAndStreams_of_grown :
    testTypes.Ordered ∧
      testTypes.types.toList <+: (testTypes.allocType ⟨none, .stream none⟩).1.types.toList ∧
      (∀ ty ∈ testFunction.parameterAndResultTypes, ty.InRange testTypes) ∧
      testFunction.findFuturesAndStreams (testTypes.allocType ⟨none, .stream none⟩).1 2 =
        testFunction.findFuturesAndStreams testTypes 2 :=
  have ordered : testTypes.Ordered := by decide
  have grown : testTypes.types.toList <+: (testTypes.allocType ⟨none, .stream none⟩).1.types.toList :=
    ⟨[⟨none, .stream none⟩], rfl⟩
  have inRange : ∀ ty ∈ testFunction.parameterAndResultTypes, ty.InRange testTypes := by decide
  ⟨ordered, grown, inRange, Function.findFuturesAndStreams_of_grown ordered grown testFunction inRange 2⟩

end WitParser
