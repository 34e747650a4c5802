import Mathlib.Data.List.Basic
import WitParser.Function

/-! # Choices of the WIT round-trip fuzzer

For each world the fuzzer draws a mangling and ABI for the dummy core module it embeds the world in.
It may then re-encode the module with some imports dropped, each by a choice drawn from its input,
and renumber every function reference by subtracting the number of dropped imports. Only function
imports take a function index: the module's own functions follow the function imports. The
renumbering is therefore right for the module's own functions exactly when every dropped import is a
function import. The `u32` subtraction panics below zero, as it does in the fuzzer's builds, which
check overflow.
-/

namespace Fuzz

open WitParser

/-- The mangling and ABI `run` draws for a world, from `u.int_in_range(0..=3)`; the error is the
panic of `unreachable!`. -/
def worldMangling (choice : Nat) : Except String ManglingAndAbi :=
  match choice with
  | 0 => .ok (.legacy .sync)
  | 1 => .ok (.legacy .asyncCallback)
  | 2 => .ok (.legacy .asyncStackful)
  | 3 => .ok .standard32
  | _ => .error "internal error: entered unreachable code"

/-- What an import brings into a core module; only a function takes a function index. -/
inductive ImportKind where
  | func
  | table
  | memory
  | global
  | tag
deriving DecidableEq, Repr

/-- `RemoveImports` without the fuzzer input it draws from: the count of dropped imports. -/
structure RemoveImports where
  removedFuncs : Nat
deriving DecidableEq, Repr

/-- `RemoveImports::parse_import`: `drop` is what `u.arbitrary().unwrap_or(false)` returned;
a kept import is copied to the new import section. -/
def RemoveImports.parseImport (state : RemoveImports) (imports : List ImportKind) (drop : Bool)
    (imported : ImportKind) : RemoveImports × List ImportKind :=
  if drop then (⟨state.removedFuncs + 1⟩, imports) else (state, imports ++ [imported])

/-- `RemoveImports::function_index`: `idx - self.removed_funcs` on `u32`. -/
def RemoveImports.functionIndex (state : RemoveImports) (idx : Nat) : Except String Nat :=
  if state.removedFuncs ≤ idx then .ok (idx - state.removedFuncs)
  else .error "attempt to subtract with overflow"

/-- The import section parsed in order from a fresh state, each import with the choice drawn for
it. -/
def RemoveImports.parseImports (choices : List (Bool × ImportKind)) : RemoveImports × List ImportKind :=
  choices.foldl (fun parsed choice => parsed.1.parseImport parsed.2 choice.1 choice.2) (⟨0⟩, [])

@[simp] theorem RemoveImports.parseImport_drop (state : RemoveImports) (imports : List ImportKind)
    (imported : ImportKind) : state.parseImport imports true imported = (⟨state.removedFuncs + 1⟩, imports) :=
  rfl

@[simp] theorem RemoveImports.parseImport_keep (state : RemoveImports) (imports : List ImportKind)
    (imported : ImportKind) : state.parseImport imports false imported = (state, imports ++ [imported]) :=
  rfl

/-- The number of function imports, which the module's own functions are numbered after. -/
def funcImports (imports : List ImportKind) : Nat := imports.count .func

section Renumbering

private theorem foldl_parseImport (choices : List (Bool × ImportKind)) (state : RemoveImports)
    (imports : List ImportKind) :
    choices.foldl (fun parsed choice => parsed.1.parseImport parsed.2 choice.1 choice.2)
        (state, imports) =
      (⟨state.removedFuncs + (choices.filter (·.1)).length⟩,
        imports ++ (choices.filter (!·.1)).map Prod.snd) := by
  induction choices generalizing state imports with
  | nil => simp
  | cons choice choices ih =>
    rcases choice with ⟨_ | _, imported⟩ <;>
      simp only [List.foldl_cons, RemoveImports.parseImport_drop, RemoveImports.parseImport_keep] <;>
      rw [ih] <;> simp [Nat.add_assoc, Nat.add_comm 1]

/-- Parsing the import section counts the dropped imports and keeps the others in order. -/
theorem RemoveImports.parseImports_eq (choices : List (Bool × ImportKind)) :
    RemoveImports.parseImports choices =
      (⟨(choices.filter (·.1)).length⟩, (choices.filter (!·.1)).map Prod.snd) := by
  simpa using foldl_parseImport choices ⟨0⟩ []

private theorem count_func_partition (choices : List (Bool × ImportKind)) :
    (choices.map Prod.snd).count .func = ((choices.filter (!·.1)).map Prod.snd).count .func +
      ((choices.filter (·.1)).map Prod.snd).count .func := by
  induction choices with
  | nil => rfl
  | cons choice choices ih =>
    rcases choice with ⟨_ | _, imported⟩ <;> simp [List.count_cons, ih] <;> omega

/-- For one of the module's own functions, `function_index` gives the index it has after the
dropped imports are gone exactly when every dropped import is a function import; a dropped table,
memory, global or tag shifts the module's functions one place too far, or makes the subtraction
panic. -/
theorem RemoveImports.functionIndex_defined (choices : List (Bool × ImportKind)) (idx : Nat)
    (defined : funcImports (choices.map Prod.snd) ≤ idx) :
    (RemoveImports.parseImports choices).1.functionIndex idx =
        .ok (idx - funcImports (choices.map Prod.snd) +
          funcImports (RemoveImports.parseImports choices).2) ↔
      ∀ choice ∈ choices, choice.1 = true → choice.2 = .func := by
  have partition := count_func_partition choices
  have droppedFuncs : ((choices.filter (·.1)).map Prod.snd).count .func ≤
      (choices.filter (·.1)).length := by
    simpa using List.count_le_length ImportKind.func ((choices.filter (·.1)).map Prod.snd)
  have allFuncs : ((choices.filter (·.1)).map Prod.snd).count .func =
      (choices.filter (·.1)).length ↔ ∀ choice ∈ choices, choice.1 = true → choice.2 = .func := by
    rw [← List.length_map (choices.filter (·.1)) Prod.snd, List.count_eq_length]
    simp only [List.forall_mem_map, List.mem_filter, and_imp]
    exact ⟨fun all choice mem dropped => (all choice mem dropped).symm,
      fun all choice mem dropped => (all choice mem dropped).symm⟩
  rw [RemoveImports.parseImports_eq, RemoveImports.functionIndex, ← allFuncs]
  simp only [funcImports] at defined ⊢
  split_ifs with fits
  · rw [Except.ok.injEq]
    omega
  · simp only [reduceCtorEq, false_iff]
    omega

theorem functionIndex_defined_of_dropped_func :
    funcImports ([(true, .func), (false, .memory)].map Prod.snd) ≤ 1 ∧
      ((RemoveImports.parseImports [(true, .func), (false, .memory)]).1.functionIndex 1 =
        .ok (1 - funcImports ([(true, .func), (false, .memory)].map Prod.snd) +
          funcImports (RemoveImports.parseImports [(true, .func), (false, .memory)]).2) ↔
      ∀ choice ∈ [(true, ImportKind.func), (false, .memory)], choice.1 = true → choice.2 = .func) :=
  have defined : funcImports ([(true, .func), (false, .memory)].map Prod.snd) ≤ 1 := by decide
  ⟨defined, RemoveImports.functionIndex_defined _ 1 defined⟩

/-- Dropping a memory import makes the module's first function underflow. -/
example : (RemoveImports.parseImports [(true, .memory)]).1.functionIndex 0 =
    .error "attempt to subtract with overflow" := rfl

end Renumbering

end Fuzz
