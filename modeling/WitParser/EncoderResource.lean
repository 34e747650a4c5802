import Mathlib.Data.List.Basic

/-! # The resource builder of the WIT encoder

`wit-encoder` assembles a resource's functions through setters. A method or a static function has
a name, an async flag and an optional result; a constructor has neither name nor result, and the
setters for those two panic on it. A sequence of setter calls therefore keeps what kind of
function it builds, and panics on a constructor exactly when it names it or gives it a result.
Identifiers, parameter lists, docs and the encoder's types are declared outside `resource.rs`:
identifiers are strings as given, parameters a list of named types, docs their text, and the
encoder's type a parameter `Ty`.
-/

namespace WitEncoder

inductive ResourceFuncKind (Ty : Type) where
  | method (name : String) (async : Bool) (ret : Option Ty)
  | static (name : String) (async : Bool) (ret : Option Ty)
  | constructor
deriving DecidableEq, Repr

structure ResourceFunc (Ty : Type) where
  kind : ResourceFuncKind Ty
  params : List (String × Ty)
  docs : Option String
deriving DecidableEq, Repr

/-- `Resource`: its functions in the order they were added. -/
structure Resource (Ty : Type) where
  funcs : List (ResourceFunc Ty)
deriving DecidableEq, Repr

variable {Ty : Type}

def Resource.empty : Resource Ty := ⟨[]⟩

def Resource.func (resource : Resource Ty) (func : ResourceFunc Ty) : Resource Ty :=
  ⟨resource.funcs ++ [func]⟩

def ResourceFunc.method (name : String) (async : Bool) : ResourceFunc Ty :=
  ⟨.method name async none, [], none⟩

def ResourceFunc.static_ (name : String) (async : Bool) : ResourceFunc Ty :=
  ⟨.static name async none, [], none⟩

def ResourceFunc.constructor : ResourceFunc Ty := ⟨.constructor, [], none⟩

/-- `ResourceFunc::set_name`; the error is the panic's message. -/
def ResourceFunc.setName (func : ResourceFunc Ty) (name : String) : Except String (ResourceFunc Ty) :=
  match func.kind with
  | .method _ async ret => .ok { func with kind := .method name async ret }
  | .static _ async ret => .ok { func with kind := .static name async ret }
  | .constructor => .error "constructors cannot have a name"

def ResourceFunc.setParams (func : ResourceFunc Ty) (params : List (String × Ty)) : ResourceFunc Ty :=
  { func with params := params }

def ResourceFunc.result (func : ResourceFunc Ty) : Option (Option Ty) :=
  match func.kind with
  | .method _ _ ret | .static _ _ ret => some ret
  | .constructor => none

/-- `ResourceFunc::result_mut`, as the slot it borrows: the result held there, and the function
with the slot overwritten. -/
def ResourceFunc.resultMut (func : ResourceFunc Ty) :
    Option (Option Ty × (Option Ty → ResourceFunc Ty)) :=
  match func.kind with
  | .method name async ret => some (ret, fun ret => { func with kind := .method name async ret })
  | .static name async ret => some (ret, fun ret => { func with kind := .static name async ret })
  | .constructor => none

/-- `ResourceFunc::set_result`: writes through `result_mut`, whose `expect` panics on a
constructor. -/
def ResourceFunc.setResult (func : ResourceFunc Ty) (ret : Option Ty) :
    Except String (ResourceFunc Ty) :=
  match func.resultMut with
  | some (_, write) => .ok (write ret)
  | none => .error "constructors cannot have results"

def ResourceFunc.setDocs (func : ResourceFunc Ty) (docs : Option String) : ResourceFunc Ty :=
  { func with docs := docs }

/-- One call of a setter. -/
inductive ResourceFuncCall (Ty : Type) where
  | setName (name : String)
  | setParams (params : List (String × Ty))
  | setResult (ret : Option Ty)
  | setDocs (docs : Option String)

/-- The setters a constructor takes without panicking. -/
def ResourceFuncCall.allowedOnConstructor : ResourceFuncCall Ty → Bool
  | .setParams _ | .setDocs _ => true
  | .setName _ | .setResult _ => false

def ResourceFunc.call (func : ResourceFunc Ty) : ResourceFuncCall Ty → Except String (ResourceFunc Ty)
  | .setName name => func.setName name
  | .setParams params => .ok (func.setParams params)
  | .setResult ret => func.setResult ret
  | .setDocs docs => .ok (func.setDocs docs)

/-- Running setter calls in order; the first panic ends the run. -/
def ResourceFunc.run (func : ResourceFunc Ty) (calls : List (ResourceFuncCall Ty)) :
    Except String (ResourceFunc Ty) :=
  calls.foldlM ResourceFunc.call func

/-- What no setter changes: the kind of function and its async flag. -/
inductive ResourceFuncShape where
  | method (async : Bool)
  | static (async : Bool)
  | constructor
deriving DecidableEq, Repr

def ResourceFuncKind.shape : ResourceFuncKind Ty → ResourceFuncShape
  | .method _ async _ => .method async
  | .static _ async _ => .static async
  | .constructor => .constructor

section Setters

theorem ResourceFuncKind.shape_eq_constructor_iff (kind : ResourceFuncKind Ty) :
    kind.shape = .constructor ↔ kind = .constructor := by
  cases kind <;> simp [ResourceFuncKind.shape]

/-- A setter call panics on a constructor when it is one the constructor refuses; otherwise it
succeeds and keeps the shape. -/
theorem ResourceFunc.call_cases (func : ResourceFunc Ty) (c : ResourceFuncCall Ty) :
    (func.kind = .constructor ∧ c.allowedOnConstructor = false ∧ ∃ message, func.call c = .error message) ∨
      ((func.kind = .constructor → c.allowedOnConstructor = true) ∧
        ∃ g, func.call c = .ok g ∧ g.kind.shape = func.kind.shape) := by
  rcases func with ⟨_ | _ | _, params, docs⟩ <;> cases c <;>
    simp [ResourceFunc.call, ResourceFunc.setName, ResourceFunc.setParams, ResourceFunc.setResult,
      ResourceFunc.resultMut, ResourceFunc.setDocs, ResourceFuncCall.allowedOnConstructor,
      ResourceFuncKind.shape]

/-- Over any sequence of setter calls, the built function keeps its shape, and the run panics
exactly on a constructor given a name or a result. -/
theorem ResourceFunc.run_spec (func : ResourceFunc Ty) (calls : List (ResourceFuncCall Ty)) :
    (∀ g, func.run calls = .ok g → g.kind.shape = func.kind.shape) ∧
      ((∃ g, func.run calls = .ok g) ↔
        (func.kind = .constructor → ∀ c ∈ calls, c.allowedOnConstructor = true)) := by
  induction calls generalizing func with
  | nil =>
    exact ⟨fun g final => Except.ok.inj (final : Except.ok func = .ok g) ▸ rfl,
      iff_of_true ⟨func, rfl⟩ fun _ c mem => absurd mem (List.not_mem_nil c)⟩
  | cons c calls ih =>
    have step : func.run (c :: calls) = func.call c >>= fun g => g.run calls := rfl
    rcases func.call_cases c with ⟨constructor, refused, message, panics⟩ |
      ⟨allowed, g, succeeds, shape⟩
    · have stops : func.run (c :: calls) = .error message := by rw [step, panics]; rfl
      simp [stops, constructor, refused]
    · have continues : func.run (c :: calls) = g.run calls := by rw [step, succeeds]; rfl
      have constructorIff : g.kind = .constructor ↔ func.kind = .constructor := by
        rw [← ResourceFuncKind.shape_eq_constructor_iff, shape,
          ResourceFuncKind.shape_eq_constructor_iff]
      obtain ⟨keeps, succeedsIff⟩ := ih g
      rw [continues, succeedsIff, constructorIff, List.forall_mem_cons]
      exact ⟨fun h final => (keeps h final).trans shape,
        fun rest constructor => ⟨allowed constructor, rest constructor⟩,
        fun both constructor => (both constructor).2⟩

example : (ResourceFunc.constructor : ResourceFunc Nat).run [.setParams [("x", 0)], .setName "x"] =
    .error "constructors cannot have a name" := rfl


/-- The name a setter call gives, if it is `set_name`; the other three likewise. -/
def ResourceFuncCall.givenName : ResourceFuncCall Ty → Option String
  | .setName name => some name
  | _ => none

def ResourceFuncCall.givenParams : ResourceFuncCall Ty → Option (List (String × Ty))
  | .setParams params => some params
  | _ => none

def ResourceFuncCall.givenResult : ResourceFuncCall Ty → Option (Option Ty)
  | .setResult ret => some ret
  | _ => none

def ResourceFuncCall.givenDocs : ResourceFuncCall Ty → Option (Option String)
  | .setDocs docs => some docs
  | _ => none

/-- A function with the last name, parameters, result and docs of `calls` written over its own,
where there is one; a constructor keeps having neither name nor result. -/
def ResourceFunc.overwriteAll (func : ResourceFunc Ty) (calls : List (ResourceFuncCall Ty)) :
    ResourceFunc Ty :=
  let name := (calls.filterMap ResourceFuncCall.givenName).getLast?
  let ret := (calls.filterMap ResourceFuncCall.givenResult).getLast?
  { kind := match func.kind with
      | .method n async r => .method (name.getD n) async (ret.getD r)
      | .static n async r => .static (name.getD n) async (ret.getD r)
      | .constructor => .constructor
    params := ((calls.filterMap ResourceFuncCall.givenParams).getLast?).getD func.params
    docs := ((calls.filterMap ResourceFuncCall.givenDocs).getLast?).getD func.docs }

private theorem getLast?_filterMap_cons {α β : Type} (f : α → Option β) (a : α) (l : List α) :
    ((a :: l).filterMap f).getLast? = ((l.filterMap f).getLast?).or (f a) := by
  rcases found : f a with _ | b <;> simp only [List.filterMap_cons, found, List.getLast?_cons] <;>
    cases (l.filterMap f).getLast? <;> rfl

private theorem getD_or {α : Type} (o o' : Option α) (d : α) : (o.or o').getD d = o.getD (o'.getD d) := by
  cases o <;> rfl

private theorem call_overwriteAll {func g : ResourceFunc Ty} {c : ResourceFuncCall Ty}
    (called : func.call c = .ok g) (calls : List (ResourceFuncCall Ty)) :
    g.overwriteAll calls = func.overwriteAll (c :: calls) := by
  rcases func with ⟨_ | _ | _, params, docs⟩ <;> cases c <;>
    simp only [ResourceFunc.call, ResourceFunc.setName, ResourceFunc.setParams, ResourceFunc.setResult,
      ResourceFunc.resultMut, ResourceFunc.setDocs, Except.ok.injEq, reduceCtorEq] at called <;>
    subst called <;>
    simp only [ResourceFunc.overwriteAll, getLast?_filterMap_cons, getD_or, Option.getD_some,
      Option.getD_none, ResourceFuncCall.givenName, ResourceFuncCall.givenParams,
      ResourceFuncCall.givenResult, ResourceFuncCall.givenDocs]

theorem ResourceFunc.overwriteAll_nil (func : ResourceFunc Ty) : func.overwriteAll [] = func := by
  rcases func with ⟨_ | _ | _, params, docs⟩ <;> rfl

/-- Every sequence of setter calls either panics, exactly when a constructor is given a name or a
result, or builds the function whose name, parameters, result and docs are those of the last call
that set each of them, and its own where no call did: the setters overwrite and never combine, so
only the last call of each setter counts, in whatever order the setters were called. -/
theorem ResourceFunc.run_eq_ok_iff (func : ResourceFunc Ty) (calls : List (ResourceFuncCall Ty))
    (g : ResourceFunc Ty) :
    func.run calls = .ok g ↔
      (func.kind = .constructor → ∀ c ∈ calls, c.allowedOnConstructor = true) ∧
        g = func.overwriteAll calls := by
  induction calls generalizing func with
  | nil =>
    rw [ResourceFunc.overwriteAll_nil]
    exact ⟨fun ran => ⟨fun _ c mem => absurd mem (List.not_mem_nil c),
      (Except.ok.inj (ran : Except.ok func = .ok g)).symm⟩, fun ⟨_, same⟩ => same ▸ rfl⟩
  | cons c calls ih =>
    have step : func.run (c :: calls) = func.call c >>= fun h => h.run calls := rfl
    rcases func.call_cases c with ⟨constructor, refused, message, panics⟩ |
      ⟨allowed, h, called, shape⟩
    · have stops : func.run (c :: calls) = .error message := by rw [step, panics]; rfl
      simp [stops, constructor, refused]
    · have continues : func.run (c :: calls) = h.run calls := by rw [step, called]; rfl
      have constructorIff : h.kind = .constructor ↔ func.kind = .constructor := by
        rw [← ResourceFuncKind.shape_eq_constructor_iff, shape,
          ResourceFuncKind.shape_eq_constructor_iff]
      rw [continues, ih, constructorIff, call_overwriteAll called, List.forall_mem_cons]
      exact ⟨fun ⟨rest, same⟩ => ⟨fun constructor => ⟨allowed constructor, rest constructor⟩, same⟩,
        fun ⟨both, same⟩ => ⟨fun constructor => (both constructor).2, same⟩⟩

/-- A later `set_name` overwrites an earlier one; the docs set in between stay. -/
example : (ResourceFunc.method "a" false : ResourceFunc Nat).run
    [.setName "b", .setDocs (some "d"), .setName "c"] = .ok ⟨.method "c" false none, [], some "d"⟩ :=
  rfl

end Setters

end WitEncoder
