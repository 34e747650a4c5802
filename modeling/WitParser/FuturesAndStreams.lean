import WitParser.ExceptFold
import WitParser.Function
import WitParser.TypeTree

/-! # Finding the futures and streams of a signature

Binding generators number the `future` and `stream` types of a function by a depth-first walk
over its parameter types and then its result type. The walk follows type references with no
visited set, so it stops only because the arena is in topological order. The model walks with
fuel, one unit per nested reference, and tells a Rust panic from running out of fuel.
-/

namespace WitParser

/-- How a bounded run of the walk stops short of a result: a Rust panic, with its message, or
nesting deeper than the fuel given to the model. -/
inductive Halt where
  | panic (message : String)
  | outOfFuel
deriving DecidableEq, Repr

/-- `resolve.types[id]`; out of range the arena's vector panics. -/
def Resolve.typeDef (resolve : Resolve) (id : TypeId) : Except Halt TypeDef :=
  match resolve.types[id]? with
  | some typeDef => .ok typeDef
  | none => .error (.panic ("index out of bounds: the len is " ++ Nat.repr resolve.types.size ++
      " but the index is " ++ Nat.repr id))

/-- `find_futures_and_streams`, accumulating into `results`. -/
def findFuturesAndStreams (resolve : Resolve) (fuel : Nat) (ty : WitType) (results : List TypeId) :
    Except Halt (List TypeId) :=
  match ty, fuel with
  | .id id, fuel + 1 => do
    let typeDef ← resolve.typeDef id
    match typeDef.kind with
    | .resource | .handle _ | .flags _ | .enum _ => pure results
    | .record r => r.fields.foldlM (fun results field =>
        findFuturesAndStreams resolve fuel field.ty results) results
    | .tuple t => t.types.foldlM (fun results ty => findFuturesAndStreams resolve fuel ty results) results
    | .variant v => v.cases.foldlM (fun results case =>
        match case.ty with
        | some ty => findFuturesAndStreams resolve fuel ty results
        | none => pure results) results
    | .option ty | .list ty | .fixedSizeList ty _ | .type ty =>
      findFuturesAndStreams resolve fuel ty results
    | .result r => do
      let results ← match r.ok with
        | some ty => findFuturesAndStreams resolve fuel ty results
        | none => pure results
      match r.err with
      | some ty => findFuturesAndStreams resolve fuel ty results
      | none => pure results
    | .future ty => do
      let results ← match ty with
        | some ty => findFuturesAndStreams resolve fuel ty results
        | none => pure results
      pure (results ++ [id])
    | .stream ty => do
      let results ← match ty with
        | some ty => findFuturesAndStreams resolve fuel ty results
        | none => pure results
      pure (results ++ [id])
    | .unknown => .error (.panic "internal error: entered unreachable code")
  | .id _, 0 => .error .outOfFuel
  | _, _ => pure results

def Function.findFuturesAndStreams (f : Function) (resolve : Resolve) (fuel : Nat) :
    Except Halt (List TypeId) := do
  let results ← f.params.foldlM (fun results (_, ty) =>
    WitParser.findFuturesAndStreams resolve fuel ty results) []
  match f.result with
  | some ty => WitParser.findFuturesAndStreams resolve fuel ty results
  | none => pure results

section Step

/-- One step of the walk: look the definition up, refuse a placeholder, walk the children in
order, and collect the definition itself after them when it is a future or a stream. -/
theorem findFuturesAndStreams_succ_id (resolve : Resolve) (fuel : Nat) (id : TypeId)
    (results : List TypeId) :
    findFuturesAndStreams resolve (fuel + 1) (.id id) results = (do
      let typeDef ← resolve.typeDef id
      if typeDef.kind = .unknown then .error (.panic "internal error: entered unreachable code")
      else
        let found ← typeDef.kind.children.foldlM
          (fun results ty => findFuturesAndStreams resolve fuel ty results) results
        pure (if typeDef.kind.isFutureOrStream then found ++ [id] else found)) := by
  simp only [findFuturesAndStreams]
  cases resolve.typeDef id with
  | error halt => rfl
  | ok typeDef =>
    simp only [except_ok_bind]
    cases typeDef.kind with
    | variant v =>
      simp only [TypeDefKind.children, TypeDefKind.isFutureOrStream, foldlM_filterMap, reduceCtorEq,
        if_false, bind_pure]
      congr
      funext acc case
      cases case.ty <;> rfl
    | result r =>
      rcases r with ⟨_ | ok, _ | err⟩ <;> simp [TypeDefKind.children, TypeDefKind.isFutureOrStream]
    | future ty | stream ty =>
      rcases ty with _ | ty <;> simp [TypeDefKind.children, TypeDefKind.isFutureOrStream]
    | _ => simp [TypeDefKind.children, TypeDefKind.isFutureOrStream, List.foldlM_map]

@[simp] theorem Resolve.typeDef_of_found {resolve : Resolve} {id : TypeId} {typeDef : TypeDef}
    (found : resolve.types[id]? = some typeDef) : resolve.typeDef id = .ok typeDef := by
  simp [Resolve.typeDef, found]

theorem findFuturesAndStreams_of_rank_eq_zero (resolve : Resolve) (fuel : Nat) {ty : WitType}
    (primitive : ty.rank = 0) (results : List TypeId) :
    findFuturesAndStreams resolve fuel ty results = .ok results := by
  cases ty with
  | id id => exact absurd primitive (Nat.succ_ne_zero id)
  | _ => cases fuel <;> rfl

/-- The function walks its parameter types and then its result type, in one accumulator. -/
theorem Function.findFuturesAndStreams_eq (f : Function) (resolve : Resolve) (fuel : Nat) :
    f.findFuturesAndStreams resolve fuel = f.parameterAndResultTypes.foldlM
      (fun results ty => WitParser.findFuturesAndStreams resolve fuel ty results) [] := by
  simp only [Function.findFuturesAndStreams, Function.parameterAndResultTypes, List.foldlM_append,
    List.foldlM_map, foldlM_toList]
  congr 1
  funext results
  cases f.result <;> rfl

end Step

section Run

variable {resolve : Resolve} (ordered : resolve.Ordered)

/-- A loop whose every iteration appends a block appends the blocks in order. -/
theorem foldlM_eq_ok_append {α : Type} (l : List α)
    (step : List TypeId → α → Except Halt (List TypeId)) (out : α → List TypeId)
    (each : ∀ a ∈ l, ∀ results, step results a = .ok (results ++ out a)) (results : List TypeId) :
    l.foldlM step results = .ok (results ++ l.flatMap out) := by
  induction l generalizing results with
  | nil => simp [except_pure]
  | cons a l ih =>
    simp [each a (List.mem_cons_self a l), ih fun b mem => each b (List.mem_cons_of_mem a mem)]

/-- With fuel for the deepest reference, the walk from an in-range type whose reachable
definitions are known appends the futures and streams of its tree. -/
theorem findFuturesAndStreams_eq_typeTree {fuel : Nat} {ty : WitType} (enough : ty.rank ≤ fuel)
    (inRange : ty.InRange resolve) (known : resolve.KnownFrom ty) (results : List TypeId) :
    findFuturesAndStreams resolve fuel ty results =
      .ok (results ++ (resolve.typeTree ordered ty).futuresAndStreams) := by
  induction fuel generalizing ty results with
  | zero =>
    rw [findFuturesAndStreams_of_rank_eq_zero resolve 0 (by omega),
      resolve.typeTree_of_rank_eq_zero ordered (by omega)]
    simp
  | succ fuel ih =>
    obtain ⟨id, rfl⟩ | primitive := ty.eq_id_or_rank_eq_zero
    · obtain ⟨typeDef, found⟩ : ∃ typeDef, resolve.types[id]? = some typeDef :=
        ⟨_, Array.getElem?_eq_getElem inRange⟩
      have walked := foldlM_eq_ok_append typeDef.kind.children _ _ (fun child mem results =>
        have earlier : child.rank ≤ id := ordered.children_rank_le found child mem
        ih (by simp only [WitType.rank] at enough; omega)
          (Nat.le_trans earlier (Nat.le_of_lt inRange)) (known.child found mem) results) results
      rw [findFuturesAndStreams_succ_id, resolve.typeTree_id ordered found,
        TypeTree.futuresAndStreams_node, List.flatMap_map]
      cases fs : typeDef.kind.isFutureOrStream <;> simp [fs, found, known.kind_ne_unknown found, walked]
    · rw [findFuturesAndStreams_of_rank_eq_zero resolve _ primitive,
        resolve.typeTree_of_rank_eq_zero ordered primitive]
      simp

/-- The walk over a whole signature: each parameter's tree and then the result's, in order. -/
theorem Function.findFuturesAndStreams_eq_typeTree (f : Function)
    (inRange : ∀ ty ∈ f.parameterAndResultTypes, ty.InRange resolve)
    (known : ∀ ty ∈ f.parameterAndResultTypes, resolve.KnownFrom ty) {fuel : Nat}
    (enough : resolve.types.size ≤ fuel) :
    f.findFuturesAndStreams resolve fuel = .ok (f.parameterAndResultTypes.flatMap fun ty =>
      (resolve.typeTree ordered ty).futuresAndStreams) := by
  rw [Function.findFuturesAndStreams_eq]
  simpa using foldlM_eq_ok_append _ _ _ (fun ty mem results =>
    WitParser.findFuturesAndStreams_eq_typeTree ordered (Nat.le_trans (inRange ty mem) enough)
      (inRange ty mem) (known ty mem) results) []

end Run

section Signature

/-- On an ordered arena without placeholders, with fuel for the arena's depth, the walk over a
signature lists the futures and streams of each parameter's type tree in post-order, then those
of the result's. -/
theorem Function.findFuturesAndStreams_eq_reference (arena : OrderedResolve) (f : Function)
    (inRange : ∀ ty ∈ f.parameterAndResultTypes, ty.InRange arena.resolve) (fuel : Nat)
    (enough : arena.resolve.types.size ≤ fuel) :
    f.findFuturesAndStreams arena.resolve fuel = .ok (f.parameterAndResultTypes.flatMap fun ty =>
      (arena.resolve.typeTree arena.ordered ty).futuresAndStreams) :=
  f.findFuturesAndStreams_eq_typeTree arena.ordered inRange
    (fun ty _ => arena.known.knownFrom ty) enough

/-- The arena of the source's unit test: `future<u32>`, `future<future<u32>>`, `stream<u32>`. -/
def testTypes : Resolve :=
  ⟨#[⟨none, .future (some .u32)⟩, ⟨none, .future (some (.id 0))⟩, ⟨none, .stream (some .u32)⟩]⟩

def testArena : OrderedResolve := ⟨testTypes, by decide, by decide⟩

/-- The unit test's `foo: func(p1: future<future<u32>>, p2: u32) -> stream<u32>`. -/
def testFunction : Function := ⟨"foo", .freestanding, [("p1", .id 1), ("p2", .u32)], some (.id 2)⟩

theorem testFunction_findFuturesAndStreams_eq_reference :
    (∀ ty ∈ testFunction.parameterAndResultTypes, ty.InRange testArena.resolve) ∧
      testFunction.findFuturesAndStreams testArena.resolve 3 =
        .ok (testFunction.parameterAndResultTypes.flatMap fun ty =>
          (testArena.resolve.typeTree testArena.ordered ty).futuresAndStreams) :=
  ⟨by decide, Function.findFuturesAndStreams_eq_reference testArena testFunction (by decide) 3
    (by decide)⟩

example : testFunction.findFuturesAndStreams testTypes 3 = .ok [0, 1, 2] := rfl

/-- Over an ordered arena, the walk from an in-range signature whose reachable definitions are all
known ends, with the same list for any fuel that covers the arena, and so never panics: neither
on an index out of bounds nor on a placeholder. -/
theorem Function.findFuturesAndStreams_terminates (resolve : Resolve) (ordered : resolve.Ordered)
    (f : Function) (inRange : ∀ ty ∈ f.parameterAndResultTypes, ty.InRange resolve)
    (known : ∀ ty ∈ f.parameterAndResultTypes, resolve.KnownFrom ty) :
    ∃ found, ∀ fuel, resolve.types.size ≤ fuel → f.findFuturesAndStreams resolve fuel = .ok found :=
  ⟨_, fun _ enough => f.findFuturesAndStreams_eq_typeTree ordered inRange known enough⟩

theorem testFunction_findFuturesAndStreams_terminates :
    testTypes.Ordered ∧ (∀ ty ∈ testFunction.parameterAndResultTypes, ty.InRange testTypes) ∧
      (∀ ty ∈ testFunction.parameterAndResultTypes, testTypes.KnownFrom ty) ∧
      ∃ found, ∀ fuel, testTypes.types.size ≤ fuel →
        testFunction.findFuturesAndStreams testTypes fuel = .ok found :=
  have ordered : testTypes.Ordered := by decide
  have inRange : ∀ ty ∈ testFunction.parameterAndResultTypes, ty.InRange testTypes := by decide
  have known : ∀ ty ∈ testFunction.parameterAndResultTypes, testTypes.KnownFrom ty :=
    fun ty _ => Resolve.Known.knownFrom (by decide) ty
  ⟨ordered, inRange, known,
    Function.findFuturesAndStreams_terminates testTypes ordered testFunction inRange known⟩

end Signature

end WitParser
